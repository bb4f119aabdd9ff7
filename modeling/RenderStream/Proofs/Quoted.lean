import Mathlib.Tactic.SplitIfs
import RenderStream.Toml.Printer

/-!
# Quoted texts that are read back

A reader repeats its piece as long as it fits. What a character is written as is a piece whatever
follows it (`IsPiece`), but a quote is not: whether it stands for itself or ends the text is seen
from the two behind it. So a body spells its text with some quotes pending (`Spells`), and those
that are pending at the end go with the quotes that close (`Spells.many`). All forms in which a text
may be written spell it (`spells_escapeAll`, `spells_self`), and so every text reads back
(`string?_quote`).
-/

namespace RenderStream.Toml

/-! ## Repetition -/

section
variable {α : Type} {piece : Reader α} {a : α} {s rest chunk : List Char}

/-- Where no piece begins, none is read. -/
theorem many_of_none (h : piece s = none) : many piece s = ([], s) := by
  rw [many, h]

/-- A text that is one piece, whatever follows it. -/
structure IsPiece (piece : Reader α) (chunk : List Char) (a : α) : Prop where
  ne_nil : chunk ≠ []
  reads : ∀ rest, piece (chunk ++ rest) = some (a, rest)

/-- Pieces that follow one another are read one by one. -/
theorem IsPiece.many (h : IsPiece piece chunk a) (rest : List Char) :
    many piece (chunk ++ rest) = (a :: (many piece rest).1, (many piece rest).2) := by
  have hlength : rest.length < (chunk ++ rest).length := by
    have hpos := List.length_pos_iff.2 h.ne_nil
    rw [List.length_append]
    omega
  rw [Toml.many, h.reads]
  exact if_pos hlength

/-- A text that is put together of pieces. -/
theorem many_pieces {chunks : List (List Char × α)} (h : ∀ x ∈ chunks, IsPiece piece x.1 x.2)
    (rest : List Char) : many piece ((chunks.map (·.1)).flatten ++ rest) =
      (chunks.map (·.2) ++ (many piece rest).1, (many piece rest).2) := by
  induction chunks with
  | nil => rfl
  | cons x chunks ih =>
    obtain ⟨hx, hchunks⟩ := List.forall_mem_cons.1 h
    rw [List.map_cons, List.flatten_cons, List.append_assoc, hx.many, ih hchunks]
    rfl

end

/-! ## Bodies of strings -/

section
variable {quote c : Char} {piece : Reader (List Char)} {limit q : Nat} {w s tail rest : List Char}

/-- A text that a body stands for: a character is a piece, and so many quotes in a row may stand for
themselves. `q` of them have just been read. -/
inductive Spells (quote : Char) (piece : Reader (List Char)) (limit : Nat) :
    Nat → List Char → List Char → Prop where
  | nil {q : Nat} : Spells quote piece limit q [] []
  | quote {q : Nat} {w s : List Char} (hq : q < limit) (h : Spells quote piece limit (q + 1) w s) :
      Spells quote piece limit q (quote :: w) (quote :: s)
  | piece {q : Nat} {chunk w s : List Char} {c : Char} (hchunk : IsPiece piece chunk [c])
      (hhead : chunk.head? ≠ some quote) (h : Spells quote piece limit 0 w s) :
      Spells quote piece limit q (chunk ++ w) (c :: s)

/-- How a reader of pieces deals with quotes: up to so many in a row are pieces of their own. -/
structure Quoting (quote : Char) (piece : Reader (List Char)) (limit : Nat) : Prop where
  reads : ∀ q < limit, ∀ t, t.head? ≠ some quote →
    piece (List.replicate (q + 1) quote ++ t) = some ([quote], List.replicate q quote ++ t)

/-- As many quotes in a row as may stand for themselves are read one by one. -/
theorem Quoting.many (h : Quoting quote piece limit) {t : List Char} (ht : t.head? ≠ some quote)
    (hq : q ≤ limit) : many piece (List.replicate q quote ++ t) =
      (List.replicate q [quote] ++ (many piece t).1, (many piece t).2) := by
  induction q with
  | zero => rfl
  | succ q ih =>
    have hlength : (List.replicate q quote ++ t).length <
        (List.replicate (q + 1) quote ++ t).length := by
      simp only [List.length_append, List.length_replicate]
      omega
    rw [Toml.many, h.reads q hq t ht]
    dsimp only
    rw [if_pos hlength, ih (Nat.le_of_succ_le hq)]
    rfl

/-- Quotes that are still pending when the body ends belong to what follows it. -/
theorem Spells.many (hquoting : Quoting quote piece limit)
    (hstop : ∀ k ≤ limit, piece (List.replicate k quote ++ tail) = none)
    (h : Spells quote piece limit q w s) (hq : q ≤ limit) :
    ∃ k ≤ limit, ∃ pieces,
      many piece (List.replicate q quote ++ (w ++ tail)) =
          (pieces, List.replicate k quote ++ tail) ∧
        pieces.flatten ++ List.replicate k quote = List.replicate q quote ++ s := by
  induction h with
  | @nil q =>
    refine ⟨q, hq, [], ?_, ?_⟩
    · exact many_of_none (hstop q hq)
    · simp
  | @quote q w s hlt h ih =>
    have hmove (t : List Char) : List.replicate q quote ++ quote :: t =
        List.replicate (q + 1) quote ++ t := by
      rw [List.replicate_succ', List.append_assoc]
      rfl
    obtain ⟨k, hk, pieces, hmany, hpieces⟩ := ih hlt
    exact ⟨k, hk, pieces, by rw [List.cons_append, hmove, hmany], by rw [hpieces, hmove]⟩
  | @piece q chunk w s c hchunk hhead h ih =>
    obtain ⟨k, hk, pieces, hmany, hpieces⟩ := ih (Nat.zero_le _)
    rw [List.replicate_zero, List.nil_append] at hmany hpieces
    have hhead' : (chunk ++ (w ++ tail)).head? ≠ some quote := by
      obtain ⟨d, r, hd⟩ := List.exists_cons_of_ne_nil hchunk.ne_nil
      rw [hd] at hhead ⊢
      exact hhead
    refine ⟨k, hk, List.replicate q [quote] ++ [c] :: pieces, ?_, ?_⟩
    · rw [List.append_assoc, hquoting.many hhead' hq, hchunk.many, hmany]
    · rw [List.flatten_append, List.flatten_cons, List.append_assoc, List.append_assoc, hpieces]
      simp

/-- A quote ends the body of a string on one line. -/
theorem Spells.lineBody (h : Spells quote piece 0 0 w s) (hstop : ∀ r, piece (quote :: r) = none)
    (rest : List Char) :
    lineBody quote piece (w ++ quote :: rest) = some (String.ofList s, rest) := by
  have hquoting : Quoting quote piece 0 := ⟨fun q hq => absurd hq (Nat.not_lt_zero q)⟩
  have hstop' (k : Nat) (hk : k ≤ 0) : piece (List.replicate k quote ++ quote :: rest) = none := by
    rw [Nat.le_zero.1 hk]
    exact hstop rest
  obtain ⟨k, hk, pieces, hmany, hpieces⟩ := h.many hquoting hstop' (Nat.le_refl 0)
  rw [Nat.le_zero.1 hk] at hmany hpieces
  simp only [List.replicate_zero, List.nil_append, List.append_nil] at hmany hpieces
  simp [Toml.lineBody, hmany, hpieces, exactly]

/-- Three quotes in a row are taken for the end, all others for themselves. -/
theorem quoting_two (h : ∀ r, piece (quote :: r) =
    if r.take 2 = [quote, quote] then none else some ([quote], r)) : Quoting quote piece 2 := by
  refine ⟨fun q hq t ht => ?_⟩
  rw [List.replicate_succ, List.cons_append, h, if_neg]
  intro htwo
  obtain rfl | rfl : q = 0 ∨ q = 1 := by omega
  · cases t with
    | nil => cases htwo
    | cons d t => exact ht (congrArg some (List.cons.inj htwo).1)
  · cases t with
    | nil => cases htwo
    | cons d t => exact ht (congrArg some (List.cons.inj (List.cons.inj htwo).2).1)

/-- Three quotes end the body of a string of several lines, and they are the last ones there. -/
theorem Spells.linesBody (h : Spells quote piece 2 0 w s) (hpiece : ∀ r, piece (quote :: r) =
    if r.take 2 = [quote, quote] then none else some ([quote], r)) (hrest : rest.head? ≠ some quote)
    {t : List Char} (ht : (newline? t).getD t = w ++ (List.replicate 3 quote ++ rest)) :
    linesBody quote piece t = some (String.ofList s, rest) := by
  have hstop (k : Nat) (hk : k ≤ 2) :
      piece (List.replicate k quote ++ (List.replicate 3 quote ++ rest)) = none := by
    rw [← List.append_assoc, List.replicate_append_replicate, List.replicate_succ,
      List.cons_append, hpiece, if_pos]
    rw [List.take_append_of_le_length (by simp), List.take_replicate]
    congr 1
  obtain ⟨k, hk, pieces, hmany, hpieces⟩ := h.many (quoting_two hpiece) hstop (Nat.zero_le 2)
  rw [List.replicate_zero, List.nil_append, ← List.append_assoc (List.replicate k quote),
    List.replicate_append_replicate] at hmany
  have hend : rest.takeWhile (· == quote) = [] := by
    cases rest with
    | nil => rfl
    | cons d r =>
      have hd : (d == quote) = false := beq_eq_false_iff_ne.2 fun hd => hrest (congrArg some hd)
      rw [List.takeWhile_cons, hd]
      rfl
  -- The run of quotes is made up of those pending and the three that close.
  have hrun : ((List.replicate (k + 3) quote ++ rest).takeWhile (· == quote)).length = k + 3 := by
    rw [List.takeWhile_append_of_pos fun d hd => beq_iff_eq.2 (List.eq_of_mem_replicate hd), hend,
      List.append_nil, List.length_replicate]
  have hlong : ¬k + 3 < 3 := by omega
  have hextra : min (k + 3 - 3) 2 = k := by omega
  have hdrop : (List.replicate (k + 3) quote ++ rest).drop (k + 3) = rest := by
    rw [List.drop_left' (List.length_replicate)]
  unfold Toml.linesBody
  simp only [ht, hmany, hrun, if_neg hlong, hextra, hdrop, hpieces]
  rfl

end
/-! ## Characters -/

section
variable {c : Char} {rest : List Char}

/-- Every control character reads back from its number. -/
theorem codePoint?_code : ∀ n < 128,
    codePoint? (((Nat.toDigits 16 n).map Char.toUpper).leftpad 4 '0') = some (Char.ofNat n) ∧
      (((Nat.toDigits 16 n).map Char.toUpper).leftpad 4 '0').length = 4 := by
  decide

/-- Pieces of a string in double quotes: on one line, or on several. -/
def basicReader (triple : Bool) : Reader (List Char) :=
  if triple then basicLinesPiece else basicPiece

/-- Only a feed or a return begins a newline. -/
theorem newline?_cons_of_ne {d : Char} (hfeed : d ≠ '\n') (hreturn : d ≠ '\r') :
    newline? (d :: rest) = none := by
  unfold newline?
  split
  · next heq => exact absurd (List.cons.inj heq).1 hfeed
  · next heq => exact absurd (List.cons.inj heq).1 hreturn
  · rfl

/-- A plain character that needs no escape is a piece of a string in double quotes. -/
theorem isPiece_plain (triple : Bool) (hc : isPlain c = true) (hquote : c ≠ '"')
    (hslash : c ≠ '\\') : IsPiece (basicReader triple) [c] [c] := by
  have hbasic (rest : List Char) : basicPiece (c :: rest) = some ([c], rest) := by
    unfold basicPiece
    split
    · next heq => exact absurd (List.cons.inj heq).1 hslash
    · next heq =>
      obtain ⟨rfl, rfl⟩ := List.cons.inj heq
      simp [hc, hquote]
    · next heq => cases heq
  have hcontinuation (rest : List Char) : continuation (c :: rest) = none := by
    unfold continuation
    split
    · next heq => exact absurd (List.cons.inj heq).1 hslash
    · rfl
  refine ⟨List.cons_ne_nil _ _, fun rest => ?_⟩
  cases triple with
  | true => simp [basicReader, basicLinesPiece, hcontinuation, hbasic]
  | false => exact hbasic rest

/-- An escape is a piece, the character that it is read as. -/
theorem isPiece_escaped (triple : Bool) {d : Char} {r : List Char} (hblank : isBlank d = false)
    (hfeed : d ≠ '\n') (hreturn : d ≠ '\r')
    (h : ∀ rest, escape? (d :: (r ++ rest)) = some (c, rest)) :
    IsPiece (basicReader triple) ('\\' :: d :: r) [c] := by
  have hbasic (rest : List Char) : basicPiece ('\\' :: d :: (r ++ rest)) = some ([c], rest) := by
    rw [basicPiece, h]
    rfl
  have hcontinuation (rest : List Char) : continuation ('\\' :: d :: (r ++ rest)) = none := by
    rw [continuation, skipBlanks, List.dropWhile_cons_of_neg (by simp [hblank]),
      newline?_cons_of_ne hfeed hreturn]
    rfl
  refine ⟨List.cons_ne_nil _ _, fun rest => ?_⟩
  cases triple with
  | true => simp [basicReader, basicLinesPiece, hcontinuation, hbasic]
  | false => exact hbasic rest

/-- A character that is written by its code is read as itself. -/
theorem isPiece_codeEscape (triple : Bool) (h : needsCode c = true) :
    IsPiece (basicReader triple) (codeEscape c).toList [c] := by
  have hsmall : c.toNat < 128 := by
    simp only [needsCode, Bool.or_eq_true, Bool.and_eq_true, decide_eq_true_eq] at h
    rcases h with ⟨⟨hcontrol, -⟩, -⟩ | rfl
    · exact Nat.lt_trans hcontrol (by decide)
    · decide
  obtain ⟨hpoint, hlength⟩ := codePoint?_code c.toNat hsmall
  rw [Char.ofNat_toNat] at hpoint
  unfold codeEscape
  generalize ((Nat.toDigits 16 c.toNat).map Char.toUpper).leftpad 4 '0' = digits at hpoint hlength ⊢
  have hprint : ("\\u" ++ String.ofList digits).toList = '\\' :: 'u' :: digits := by
    simp only [String.toList_append, String.toList_ofList]
    rfl
  rw [hprint]
  refine isPiece_escaped triple rfl (by decide) (by decide) fun rest => ?_
  rw [escape?, codeEscape?, List.take_left' hlength, List.drop_left' hlength, if_pos hlength,
    hpoint]
  rfl

/-- In a string of several lines a newline is a piece. -/
theorem isPiece_newline : IsPiece basicLinesPiece ['\n'] ['\n'] :=
  ⟨List.cons_ne_nil _ _, fun _ => rfl⟩

/-- A character that needs no number is plain, or a line end. -/
theorem isPlain_of_not_needsCode (h : needsCode c = false) (hfeed : c ≠ '\n') :
    isPlain c = true := by
  simp only [needsCode, Bool.or_eq_false_iff, Bool.and_eq_false_iff, decide_eq_false_iff_not,
    bne_eq_false_iff_eq] at h
  obtain ⟨(hlt | rfl) | rfl, hdelete⟩ := h
  · simp [isPlain, hdelete, Char.not_lt.1 hlt]
  · rfl
  · exact absurd rfl hfeed

/-- What a character is written as, reads back as it. -/
theorem isPiece_escape (triple : Bool) (hquote : c ≠ '"') :
    IsPiece (basicReader triple) (escape triple c).toList [c] := by
  have hescaped {d : Char} (hblank : isBlank d = false) (hfeed : d ≠ '\n') (hreturn : d ≠ '\r')
      (h : ∀ rest, escape? (d :: rest) = some (c, rest)) :
      IsPiece (basicReader triple) ['\\', d] [c] :=
    isPiece_escaped triple hblank hfeed hreturn h
  unfold escape
  split_ifs with hback htab hfeed htriple hpage hreturn hslash hcode
  · exact hescaped rfl (by decide) (by decide) fun rest => by rw [hback]; rfl
  · exact hescaped rfl (by decide) (by decide) fun rest => by rw [htab]; rfl
  · rw [htriple, hfeed]
    exact isPiece_newline
  · exact hescaped (d := 'n') rfl (by decide) (by decide) fun rest => by rw [hfeed]; rfl
  · exact hescaped rfl (by decide) (by decide) fun rest => by rw [hpage]; rfl
  · exact hescaped (d := 'r') rfl (by decide) (by decide) fun rest => by rw [hreturn]; rfl
  · exact hescaped rfl (by decide) (by decide) fun rest => by rw [hslash]; rfl
  · exact isPiece_codeEscape triple hcode
  · rw [Char.toString, String.toList_singleton]
    exact isPiece_plain triple (isPlain_of_not_needsCode (Bool.not_eq_true _ ▸ hcode) hfeed) hquote
      hslash

/-- On one line a double quote ends the string. -/
theorem basicPiece_quote (rest : List Char) : basicPiece ('"' :: rest) = none := rfl

/-- On several lines a double quote ends the string only when two more follow. -/
theorem basicLinesPiece_quote (rest : List Char) : basicLinesPiece ('"' :: rest) =
    if rest.take 2 = ['"', '"'] then none else some (['"'], rest) := by
  change quotePiece '"' ('"' :: rest) = _
  simp [quotePiece]

/-- On one line a single quote ends the literal. -/
theorem literalPiece_quote (rest : List Char) : literalPiece ('\'' :: rest) = none := rfl

/-- On several lines a single quote ends the literal only when two more follow. -/
theorem literalLinesPiece_quote (rest : List Char) : literalLinesPiece ('\'' :: rest) =
    if rest.take 2 = ['\'', '\''] then none else some (['\''], rest) := by
  change quotePiece '\'' ('\'' :: rest) = _
  simp [quotePiece]

/-- How many quotes in a row may stand for themselves. -/
def quoteLimit (triple : Bool) : Nat := if triple then 2 else 0

/-- What begins with a quote is not read as another character. -/
theorem head?_of_isPiece {triple : Bool} {chunk : List Char}
    (h : IsPiece (basicReader triple) chunk [c]) (hquote : c ≠ '"') : chunk.head? ≠ some '"' := by
  intro hhead
  obtain ⟨d, r, rfl⟩ := List.exists_cons_of_ne_nil h.ne_nil
  obtain rfl := Option.some.inj hhead
  have hreads := h.reads []
  cases triple with
  | true =>
    rw [List.append_nil, basicReader, if_pos rfl, basicLinesPiece_quote] at hreads
    split at hreads
    · cases hreads
    · exact hquote (by cases hreads; rfl)
  | false => cases hreads

/-- The body that is written for a text spells it. -/
theorem spells_escapeAll (triple : Bool) (s : List Char) {q : Nat} (hq : q ≤ quoteLimit triple) :
    Spells '"' (basicReader triple) (quoteLimit triple) q (escapeAll triple q s).toList s := by
  induction s generalizing q with
  | nil => exact .nil
  | cons c s ih =>
    by_cases hquote : c = '"'
    · rw [hquote, escapeAll]
      split
      · next h =>
        obtain ⟨rfl, hlt⟩ := Bool.and_eq_true_iff.1 h
        have hlt : q < 2 := of_decide_eq_true hlt
        rw [String.toList_append]
        exact .quote hlt (ih hlt)
      · rw [String.toList_append]
        exact .piece (isPiece_escaped triple (d := '"') rfl (by decide) (by decide) fun rest => rfl)
          (by decide) (ih (Nat.zero_le _))
    · have hpiece := isPiece_escape triple hquote
      rw [escapeAll, String.toList_append]
      · exact .piece hpiece (head?_of_isPiece hpiece hquote) (ih (Nat.zero_le _))
      · exact hquote

/-- The state of counting the runs of a quote: the longest one and the present one. -/
def countRun (quote : Char) (state : Nat × Nat) (c : Char) : Nat × Nat :=
  if c = quote then (max state.1 (state.2 + 1), state.2 + 1) else (state.1, 0)

/-- The longest run so far never becomes shorter. -/
theorem le_foldl_countRun (quote : Char) (s : List Char) (state : Nat × Nat) :
    state.1 ≤ (s.foldl (countRun quote) state).1 := by
  induction s generalizing state with
  | nil => exact Nat.le_refl _
  | cons c s ih =>
    refine Nat.le_trans ?_ (ih _)
    unfold countRun
    split
    · exact Nat.le_max_left _ _
    · exact Nat.le_refl _

/-- A text whose characters are pieces, and whose runs of quotes are short, stands for itself. -/
theorem spells_self {quote : Char} {piece : Reader (List Char)} {limit : Nat} (s : List Char)
    (hpiece : ∀ c ∈ s, c ≠ quote → IsPiece piece [c] [c]) {best q : Nat} (hq : q ≤ best)
    (hrun : (s.foldl (countRun quote) (best, q)).1 ≤ limit) : Spells quote piece limit q s s := by
  induction s generalizing best q with
  | nil => exact .nil
  | cons c s ih =>
    obtain ⟨hc, hs⟩ := List.forall_mem_cons.1 hpiece
    rw [List.foldl_cons, countRun] at hrun
    split at hrun
    · next h =>
      have hmax := Nat.le_trans (le_foldl_countRun quote s _) hrun
      have hlt := Nat.le_trans (Nat.le_max_right best (q + 1)) hmax
      rw [h]
      exact .quote hlt (ih hs (Nat.le_max_right _ _) hrun)
    · next h =>
      have hhead : [c].head? ≠ some quote := fun heq => h (Option.some.inj heq)
      exact .piece (hc h) hhead (ih hs (Nat.zero_le _) hrun)

/-- A plain character but the quote is a piece of a literal, on one line or on several. -/
theorem isPiece_literal (hc : isPlain c = true) (hquote : c ≠ '\'') :
    IsPiece literalPiece [c] [c] ∧ IsPiece literalLinesPiece [c] [c] := by
  have hreads (rest : List Char) : literalPiece (c :: rest) = some ([c], rest) := by
    simp [literalPiece, hc, hquote]
  refine ⟨⟨List.cons_ne_nil _ _, hreads⟩, List.cons_ne_nil _ _, fun rest => ?_⟩
  rw [List.singleton_append, literalLinesPiece, hreads]
  rfl

/-- In a literal of several lines a newline is a piece. -/
theorem isPiece_literal_newline : IsPiece literalLinesPiece ['\n'] ['\n'] :=
  ⟨List.cons_ne_nil _ _, fun _ => rfl⟩

/-! ## Quoted texts -/

/-- A body in which no quote may stand for itself does not begin with one. -/
theorem Spells.head?_ne {quote : Char} {piece : Reader (List Char)} {w s : List Char} {q : Nat}
    (h : Spells quote piece 0 q w s) : w.head? ≠ some quote := by
  cases h with
  | nil => exact nofun
  | quote hq => exact absurd hq (Nat.not_lt_zero _)
  | piece hchunk hhead _ =>
    obtain ⟨d, r, hd⟩ := List.exists_cons_of_ne_nil hchunk.ne_nil
    rw [hd] at hhead ⊢
    exact hhead

/-- Behind a quote on one line there are not two more. -/
theorem Spells.not_triple {quote : Char} {piece : Reader (List Char)} {w s rest : List Char}
    {q : Nat} (h : Spells quote piece 0 q w s) (hrest : rest.head? ≠ some quote) (r : List Char) :
    w ++ quote :: rest ≠ quote :: quote :: r := by
  intro heq
  have hhead := h.head?_ne
  cases w with
  | nil => exact hrest (congrArg List.head? (List.cons.inj heq).2)
  | cons d w => exact hhead (congrArg some (List.cons.inj heq).1)

/-- A body in double quotes is read as the text that it spells. -/
theorem string?_basic {w s : List Char} (h : Spells '"' basicPiece 0 0 w s)
    (hrest : rest.head? ≠ some '"') :
    string? ('"' :: (w ++ '"' :: rest)) = some (String.ofList s, rest) := by
  have hbody := h.lineBody basicPiece_quote rest
  have htriple := h.not_triple hrest
  unfold string?
  split
  · next r heq => exact absurd (List.cons.inj heq).2 (htriple r)
  · next r _ heq => rw [← (List.cons.inj heq).2, hbody]
  · next heq => exact absurd (List.cons.inj heq).1 (by decide)
  · next heq => exact absurd (List.cons.inj heq).1 (by decide)
  · next hnot _ _ => exact absurd rfl (hnot _)

/-- A body in single quotes is read as the text that it spells. -/
theorem string?_literal {w s : List Char} (h : Spells '\'' literalPiece 0 0 w s)
    (hrest : rest.head? ≠ some '\'') :
    string? ('\'' :: (w ++ '\'' :: rest)) = some (String.ofList s, rest) := by
  have hbody := h.lineBody literalPiece_quote rest
  have htriple := h.not_triple hrest
  unfold string?
  split
  · next heq => exact absurd (List.cons.inj heq).1 (by decide)
  · next heq => exact absurd (List.cons.inj heq).1 (by decide)
  · next r heq => exact absurd (List.cons.inj heq).2 (htriple r)
  · next r _ heq => rw [← (List.cons.inj heq).2, hbody]
  · next hnot => exact absurd rfl (hnot _)

/-- A body does not begin with a line end, if the text it spells has none. -/
theorem Spells.newline?_eq_none {quote : Char} {piece : Reader (List Char)} {w s : List Char}
    {limit q : Nat} (h : Spells quote piece limit q w s) (tail : List Char)
    (hpiece : ∀ t r, newline? t = some r → piece t = some (['\n'], r))
    (hquote : ∀ r, newline? (quote :: r) = none) (htext : '\n' ∉ s) :
    newline? (w ++ quote :: tail) = none := by
  cases h with
  | nil => exact hquote _
  | quote => exact hquote _
  | @piece _ chunk w s c hchunk _ _ =>
    rw [List.append_assoc]
    cases hnewline : newline? (chunk ++ (w ++ quote :: tail)) with
    | none => rfl
    | some r =>
      have hreads := (hchunk.reads _).symm.trans (hpiece _ _ hnewline)
      have hc : c = '\n' := by cases hreads; rfl
      exact absurd (List.mem_cons.2 (.inl hc.symm)) htext

/-- On several lines whatever counts as a newline is read as a feed. -/
theorem basicLinesPiece_newline {t r : List Char} (h : newline? t = some r) :
    basicLinesPiece t = some (['\n'], r) := by
  unfold newline? at h
  split at h
  · cases h
    rfl
  · cases h
    rfl
  · cases h

/-- In a literal of several lines whatever counts as a newline is read as a feed. -/
theorem literalLinesPiece_newline {t r : List Char} (h : newline? t = some r) :
    literalLinesPiece t = some (['\n'], r) := by
  unfold newline? at h
  split at h
  · cases h
    rfl
  · cases h
    rfl
  · cases h

/-- What stands between the opening quotes and a text. -/
def lineStart (lines : Bool) : String := if lines then "\n" else ""

/-- The line end that stands before a text of several lines is left out. -/
theorem newline?_lineStart {t : List Char} {lines : Bool} (h : lines = false → newline? t = none) :
    (newline? ((lineStart lines).toList ++ t)).getD ((lineStart lines).toList ++ t) = t := by
  cases lines with
  | true => rfl
  | false =>
    change (newline? t).getD t = t
    rw [h rfl]
    rfl

section
variable {text : String} (hbasic : rest.head? ≠ some '"') (hliteral : rest.head? ≠ some '\'')

include hbasic in
/-- An escaped text in double quotes is read as the text. -/
theorem string?_escaped : string? (("\"" ++ lineStart false ++ escapeAll false 0 text.toList ++
    "\"").toList ++ rest) = some (text, rest) := by
  have hspells : Spells '"' basicPiece 0 0 _ text.toList :=
    spells_escapeAll false text.toList (Nat.zero_le _)
  have hreads := string?_basic hspells hbasic
  rw [String.ofList_toList] at hreads
  simp only [String.toList_append, List.append_assoc]
  exact hreads

include hbasic in
/-- An escaped text in three double quotes is read as the text. -/
theorem string?_escaped_lines {lines : Bool} (hlines : lines = false → '\n' ∉ text.toList) :
    string? (("\"\"\"" ++ lineStart lines ++ escapeAll true 0 text.toList ++
      "\"\"\"").toList ++ rest) = some (text, rest) := by
  have hspells : Spells '"' basicLinesPiece 2 0 _ text.toList :=
    spells_escapeAll true text.toList (Nat.zero_le _)
  have hstart := newline?_lineStart fun h => hspells.newline?_eq_none ('"' :: '"' :: rest)
    (fun _ _ => basicLinesPiece_newline) (fun _ => rfl) (hlines h)
  have hreads := hspells.linesBody basicLinesPiece_quote hbasic hstart
  rw [String.ofList_toList] at hreads
  simp only [String.toList_append, List.append_assoc]
  exact hreads

include hliteral in
/-- A text without quotes that needs no escape is read as itself in single quotes. -/
theorem string?_raw (hcoded : ∀ c ∈ text.toList, needsCode c = false) (hlines : '\n' ∉ text.toList)
    (hrun : longestRun '\'' text.toList = 0) :
    string? (("'" ++ text ++ "'").toList ++ rest) = some (text, rest) := by
  have hspells : Spells '\'' literalPiece 0 0 text.toList text.toList := by
    refine spells_self _ (fun c hc hquote => (isPiece_literal ?_ hquote).1) (Nat.le_refl 0)
      (Nat.le_of_eq hrun)
    exact isPlain_of_not_needsCode (hcoded c hc) fun hfeed => hlines (hfeed ▸ hc)
  have hreads := string?_literal hspells hliteral
  rw [String.ofList_toList] at hreads
  simp only [String.toList_append, List.append_assoc]
  exact hreads

include hliteral in
/-- A text with two quotes in a row at most that needs no escape is read as itself in three single
quotes. -/
theorem string?_raw_lines {lines : Bool} (hcoded : ∀ c ∈ text.toList, needsCode c = false)
    (hlines : lines = false → '\n' ∉ text.toList) (hrun : longestRun '\'' text.toList ≤ 2) :
    string? (("'''" ++ lineStart lines ++ text ++ "'''").toList ++ rest) = some (text, rest) := by
  have hspells : Spells '\'' literalLinesPiece 2 0 text.toList text.toList := by
    refine spells_self _ (fun c hc hquote => ?_) (Nat.le_refl 0) hrun
    by_cases hfeed : c = '\n'
    · rw [hfeed]
      exact isPiece_literal_newline
    · exact (isPiece_literal (isPlain_of_not_needsCode (hcoded c hc) hfeed) hquote).2
  have hstart := newline?_lineStart fun h => hspells.newline?_eq_none ('\'' :: '\'' :: rest)
    (fun _ _ => literalLinesPiece_newline) (fun _ => rfl) (hlines h)
  have hreads := hspells.linesBody literalLinesPiece_quote hliteral hstart
  rw [String.ofList_toList] at hreads
  simp only [String.toList_append, List.append_assoc]
  exact hreads

include hbasic hliteral in
/-- A quoted text reads back as it, whatever follows but another quote. -/
theorem string?_quote : string? ((quote text).toList ++ rest) = some (text, rest) := by
  have hlines : text.toList.contains '\n' = false → '\n' ∉ text.toList := by simp
  have hcoded : text.toList.any needsCode = false → ∀ c ∈ text.toList, needsCode c = false := by
    simp
  unfold quote
  simp only [Bool.false_eq_true, if_true, if_false]
  rw [← lineStart]
  generalize text.toList.contains '\n' = lines at hlines ⊢
  simp only [Bool.and_eq_true, decide_eq_true_eq, Bool.not_eq_true']
  split_ifs with hplain hraw hplains hraws hescaped
  · rw [hplain.2]
    exact string?_escaped hbasic
  · exact string?_raw hliteral (hcoded hraw.1.1) (hlines hraw.2) hraw.1.2
  · exact string?_escaped_lines hbasic hlines
  · exact string?_raw_lines hliteral (hcoded hraws.1) hlines hraws.2
  · rw [hescaped]
    exact string?_escaped_lines hbasic nofun
  · rw [Bool.eq_false_iff.2 hescaped]
    exact string?_escaped hbasic

end

end

end RenderStream.Toml
