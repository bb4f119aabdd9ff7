import Mathlib.Data.List.Forall2
import RenderStream.Proofs.Numerals
import RenderStream.Proofs.Quoted

/-!
# Documents that are read line by line

A value that stands within a line is read up to the line end (`IsValue`), a bare key up to the first
character that ends it (`path?_bare`), and so an entry and a header of either kind are pieces that
the reader takes from the front of any text (`isPiece_entry`, `isPiece_header`, `isPiece_element`).
A text of whole lines then reads as the statements in them (`Lines.read_eq`). A printed document is
such a text: its plain entries first, then the blocks of its sections (`Document.lines`).
-/

namespace RenderStream.Toml

/-! ## Values within a line -/

section
variable {c : Char} {s rest : List Char} {v : Value} {text : String}

/-- A text that is a value, if a line end follows it. -/
structure IsValue (text : String) (v : Value) : Prop where
  head : ∃ c r, text.toList = c :: r ∧ isBlank c = false
  reads : ∀ depth rest,
    value? (depth + 1) (text.toList ++ '\n' :: rest) = some (v, '\n' :: rest)

/-- What is read as a string begins with a quote of either kind. -/
theorem string?_eq_some {x : String × List Char} (h : string? s = some x) :
    ∃ r, s = '"' :: r ∨ s = '\'' :: r := by
  unfold string? at h
  split at h
  · exact ⟨_, .inl rfl⟩
  · exact ⟨_, .inl rfl⟩
  · exact ⟨_, .inr rfl⟩
  · exact ⟨_, .inr rfl⟩
  · cases h

/-- A quoted text is read as a value, the text. -/
theorem isValue_quote (text : String) : IsValue (quote text) (.text text) := by
  have hreads (rest : List Char) : string? ((quote text).toList ++ '\n' :: rest) =
      some (text, '\n' :: rest) := string?_quote nofun nofun
  constructor
  · have hend : string? ((quote text).toList ++ []) = some (text, []) := string?_quote nofun nofun
    rw [List.append_nil] at hend
    obtain ⟨r, hr | hr⟩ := string?_eq_some hend
    · exact ⟨'"', r, hr, rfl⟩
    · exact ⟨'\'', r, hr, rfl⟩
  · intro depth rest
    have hstring := hreads rest
    obtain ⟨r, hr | hr⟩ := string?_eq_some hstring
    · rw [hr] at hstring ⊢
      rw [value?, hstring]
      rfl
    · rw [hr] at hstring ⊢
      rw [value?, hstring]
      rfl

/-- A sober character may stand in a word. -/
theorem inWord_of_isSober (hc : isSober c = true) : inWord c = true := by
  have hends : " \t\n\r,]\x7d#".toList.all (!isSober ·) = true := by decide
  rw [inWord, Bool.not_eq_true', List.contains_eq_mem, decide_eq_false_iff_not]
  intro hmem
  have hnot := List.all_eq_true.1 hends c hmem
  rw [hc] at hnot
  cases hnot

/-- What begins with a sober character is a word. -/
theorem value?_sober (hc : isSober c = true) (depth : Nat) (rest : List Char) :
    value? depth (c :: rest) = word? (c :: rest) := by
  have hne {d : Char} (hd : isSober d = false) : c ≠ d := by
    rintro rfl
    rw [hd] at hc
    cases hc
  unfold value?
  split
  · next heq => exact absurd (List.cons.inj heq).1 (hne rfl)
  · next heq => exact absurd (List.cons.inj heq).1 (hne rfl)
  · next heq => exact absurd (List.cons.inj heq).1 (hne rfl)
  · next heq => exact absurd (List.cons.inj heq).1 (hne rfl)
  · rfl

/-- A sober character is no blank. -/
theorem not_blank_of_isSober (hc : isSober c = true) : isBlank c = false := by
  have hspace : c ≠ ' ' := by rintro rfl; cases hc
  have htab : c ≠ '\t' := by rintro rfl; cases hc
  simp [isBlank, hspace, htab]

/-- A word is read as a value before anything that ends it. -/
theorem IsWord.isValue (h : IsWord text v) : IsValue text v := by
  obtain ⟨hscalar, hsober⟩ := h
  have hinWord (c : Char) (hc : c ∈ text.toList) : inWord c = true :=
    inWord_of_isSober (hsober c hc)
  have hword (rest : List Char) : word? (text.toList ++ '\n' :: rest) = some (v, '\n' :: rest) := by
    unfold word?
    rw [List.takeWhile_append_of_pos hinWord, List.dropWhile_append_of_pos hinWord,
      List.takeWhile_cons_of_neg (by decide), List.dropWhile_cons_of_neg (by decide),
      List.append_nil]
    simp only [hscalar, Option.bind_eq_bind, Option.bind_some]
    rfl
  cases htext : text.toList with
  | nil =>
    rw [htext] at hscalar
    cases hscalar
  | cons c r =>
    have hc := hsober c (htext ▸ List.mem_cons_self)
    refine ⟨⟨c, r, htext, not_blank_of_isSober hc⟩, fun depth rest => ?_⟩
    have hreads := hword rest
    rw [htext] at hreads ⊢
    exact (value?_sober hc _ _).trans hreads

/-- An empty array is printed as what is read as one. -/
theorem isValue_nothing : IsValue "[]" (.array []) := by
  refine ⟨⟨'[', [']'], rfl, rfl⟩, fun depth rest => ?_⟩
  change array? (value? depth) (']' :: '\n' :: rest) = _
  have hfiller : skipFiller (']' :: '\n' :: rest) = ']' :: '\n' :: rest := by
    rw [skipFiller, many_of_none rfl]
  have hnone : value? depth (']' :: '\n' :: rest) = none := by
    unfold value?
    rfl
  have helement : element? (value? depth) (']' :: '\n' :: rest) = none := by
    rw [element?, hfiller, hnone]
    rfl
  rw [array?, helement, hfiller]
  rfl

/-- A value that stands within a line, with a number that a document can hold. -/
def Value.Inline : Value → Prop
  | .text _ | .flag _ | .array [] => True
  | .integer n => isInteger n = true
  | .float x => x.isFinite = true
  | _ => False

/-- What is printed on one line is read as the value. -/
theorem Value.Inline.isValue (h : v.Inline) : IsValue v.print v := by
  match v, h with
  | .text s, _ =>
    rw [Value.print]
    exact isValue_quote s
  | .integer n, h =>
    rw [Value.print]
    exact (isWord_integer h).isValue
  | .float x, h =>
    rw [Value.print]
    exact (isWord_float h).isValue
  | .flag on, _ =>
    rw [Value.print]
    exact (isWord_flag on).isValue
  | .array [], _ =>
    rw [Value.print, printElements]
    exact isValue_nothing

/-! ## Keys -/

/-- A key that is written as it is. -/
def isBareKey (key : String) : Bool := key.toList.all isBare && !key.isEmpty

variable {key : String}

/-- A bare key is printed as it is. -/
theorem printKey_of_isBareKey (h : isBareKey key = true) : printKey key = key := if_pos h

/-- All characters of a bare key are bare. -/
theorem isBare_of_isBareKey (h : isBareKey key = true) : ∀ c ∈ key.toList, isBare c = true :=
  List.all_eq_true.1 (Bool.and_eq_true_iff.1 h).1

/-- A bare key has a first character, and it is bare. -/
theorem exists_of_isBareKey (h : isBareKey key = true) :
    ∃ c r, key.toList = c :: r ∧ isBare c = true := by
  cases hkey : key.toList with
  | nil =>
    obtain rfl := String.toList_eq_nil_iff.1 hkey
    cases h
  | cons c r => exact ⟨c, r, rfl, isBare_of_isBareKey h c (hkey ▸ List.mem_cons_self)⟩

/-- Where no blank stands, none is passed over. -/
theorem skipBlanks_cons (hc : isBlank c = false) : skipBlanks (c :: rest) = c :: rest :=
  List.dropWhile_cons_of_neg (by simp [hc])

/-- A bare character is not passed over. -/
theorem skipBlanks_of_isBare (hc : isBare c = true) : skipBlanks (c :: rest) = c :: rest := by
  have hspace : c ≠ ' ' := by rintro rfl; cases hc
  have htab : c ≠ '\t' := by rintro rfl; cases hc
  exact skipBlanks_cons (by simp [isBlank, hspace, htab])

/-- A bare key is read up to the first character that is not bare. -/
theorem part?_bare (h : isBareKey key = true) (hc : isBare c = false) :
    part? (key.toList ++ c :: rest) = some (key, c :: rest) := by
  obtain ⟨d, r, hkey, hd⟩ := exists_of_isBareKey h
  have hbare := isBare_of_isBareKey h
  have hword : (key.toList ++ c :: rest).takeWhile isBare = key.toList := by
    rw [List.takeWhile_append_of_pos hbare, List.takeWhile_cons_of_neg (by simp [hc]),
      List.append_nil]
  have hrest : (key.toList ++ c :: rest).dropWhile isBare = c :: rest := by
    rw [List.dropWhile_append_of_pos hbare, List.dropWhile_cons_of_neg (by simp [hc])]
  have hquote : d ≠ '"' := by rintro rfl; cases hd
  have happostrophe : d ≠ '\'' := by rintro rfl; cases hd
  have hempty : key.toList.isEmpty = false := by rw [hkey]; rfl
  unfold part?
  split
  · next heq =>
    rw [hkey] at heq
    exact absurd (List.cons.inj heq).1 hquote
  · next heq =>
    rw [hkey] at heq
    exact absurd (List.cons.inj heq).1 happostrophe
  · simp only [hword, hrest, hempty, Bool.false_eq_true, if_false, String.ofList_toList]

/-- A bare key is read up to the first character that ends it. -/
theorem path?_bare (h : isBareKey key = true) (hc : isBare c = false)
    (hdot : exactly '.' (skipBlanks (c :: rest)) = none) :
    path? (key.toList ++ c :: rest) = some (⟨[], key⟩, skipBlanks (c :: rest)) := by
  have hspaced : spacedPart? (key.toList ++ c :: rest) = some (key, skipBlanks (c :: rest)) := by
    obtain ⟨d, r, hkey, hd⟩ := exists_of_isBareKey h
    have hskip : skipBlanks (key.toList ++ c :: rest) = key.toList ++ c :: rest := by
      rw [hkey]
      exact skipBlanks_of_isBare hd
    rw [spacedPart?, hskip, part?_bare h hc]
    rfl
  have hnext : nextPart? (skipBlanks (c :: rest)) = none := by
    rw [nextPart?, hdot]
    rfl
  rw [path?, hspaced]
  simp only [Option.bind_eq_bind, Option.bind_some, many_of_none hnext]
  rfl

/-! ## Lines -/

/-- A newline ends a line. -/
theorem lineTail?_newline (rest : List Char) : lineTail? ('\n' :: rest) = some rest := rfl

/-- An empty line is a line that says nothing. -/
theorem isPiece_blankLine : IsPiece line? ['\n'] none := ⟨List.cons_ne_nil _ _, fun _ => rfl⟩

/-- The key of a header is a path of one part, up to the bracket. -/
theorem path?_header (h : isBareKey key = true) (rest : List Char) :
    path? (key.toList ++ ']' :: rest) = some (⟨[], key⟩, ']' :: rest) :=
  path?_bare h rfl rfl

/-- The header of a table is read as one line. -/
theorem isPiece_header (h : isBareKey key = true) :
    IsPiece line? ("[" ++ printKey key ++ "]" ++ "\n").toList (some (.table ⟨[], key⟩)) := by
  have hheader (rest : List Char) : header? (key.toList ++ ']' :: rest) =
      some (.table ⟨[], key⟩, rest) := by
    have hpath := path?_header h rest
    obtain ⟨d, r, hkey, hd⟩ := exists_of_isBareKey h
    have hd : d ≠ '[' := by rintro rfl; cases hd
    rw [hkey] at hpath ⊢
    unfold header?
    split
    · next heq => exact absurd (List.cons.inj heq).1 hd
    · rw [hpath]
      rfl
  have htext : ("[" ++ printKey key ++ "]" ++ "\n").toList =
      '[' :: (key.toList ++ [']', '\n']) := by
    rw [printKey_of_isBareKey h]
    simp only [String.toList_append, List.append_assoc]
    rfl
  rw [htext]
  refine ⟨List.cons_ne_nil _ _, fun rest => ?_⟩
  rw [List.cons_append, List.append_assoc, line?, skipBlanks_cons rfl]
  simp only [List.cons_append, List.nil_append, hheader, lineTail?_newline, Option.bind_eq_bind,
    Option.bind_some]
  rfl

/-- The header of an element is read as one line. -/
theorem isPiece_element (h : isBareKey key = true) :
    IsPiece line? ("[[" ++ printKey key ++ "]]" ++ "\n").toList (some (.element ⟨[], key⟩)) := by
  have hheader (rest : List Char) : header? ('[' :: (key.toList ++ ']' :: ']' :: rest)) =
      some (.element ⟨[], key⟩, rest) := by
    rw [header?, path?_header h]
    rfl
  have htext : ("[[" ++ printKey key ++ "]]" ++ "\n").toList =
      '[' :: '[' :: (key.toList ++ [']', ']', '\n']) := by
    rw [printKey_of_isBareKey h]
    simp only [String.toList_append, List.append_assoc]
    rfl
  rw [htext]
  refine ⟨List.cons_ne_nil _ _, fun rest => ?_⟩
  rw [List.cons_append, List.cons_append, List.append_assoc, line?, skipBlanks_cons rfl]
  simp only [List.cons_append, List.nil_append, hheader, lineTail?_newline, Option.bind_eq_bind,
    Option.bind_some]
  rfl

/-- A key and a value are read as one line. -/
theorem isPiece_entry (h : isBareKey key = true) (hv : IsValue text v) :
    IsPiece line? (printKey key ++ " = " ++ text ++ "\n").toList (some (.entry ⟨[], key⟩ v)) := by
  have hentry (depth : Nat) (rest : List Char) :
      entry? (value? (depth + 1))
          (key.toList ++ ' ' :: '=' :: ' ' :: (text.toList ++ '\n' :: rest)) =
        some ((⟨[], key⟩, v), '\n' :: rest) := by
    have hskip : skipBlanks (' ' :: (text.toList ++ '\n' :: rest)) =
        text.toList ++ '\n' :: rest := by
      obtain ⟨c, r, htext, hc⟩ := hv.head
      rw [htext]
      exact skipBlanks_cons hc
    have hdot :
        exactly '.' (skipBlanks (' ' :: '=' :: ' ' :: (text.toList ++ '\n' :: rest))) = none := rfl
    have hpath := path?_bare h rfl hdot
    have hequals (r : List Char) : exactly '=' (skipBlanks (' ' :: '=' :: r)) = some r := rfl
    unfold entry?
    rw [hpath]
    simp only [Option.bind_eq_bind, Option.bind_some, hequals, hskip, hv.reads]
    rfl
  have htext : (printKey key ++ " = " ++ text ++ "\n").toList =
      key.toList ++ (' ' :: '=' :: ' ' :: (text.toList ++ ['\n'])) := by
    rw [printKey_of_isBareKey h]
    simp only [String.toList_append, List.append_assoc]
    rfl
  have hmove (rest : List Char) :
      key.toList ++ (' ' :: '=' :: ' ' :: (text.toList ++ ['\n'])) ++ rest =
        key.toList ++ ' ' :: '=' :: ' ' :: (text.toList ++ '\n' :: rest) := by
    simp
  obtain ⟨d, r, hkey, hd⟩ := exists_of_isBareKey h
  have hne {e : Char} (he : isBare e = false) : d ≠ e := by
    rintro rfl
    rw [he] at hd
    cases hd
  rw [htext]
  refine ⟨by simp, fun rest => ?_⟩
  have hreads := hentry 78 rest
  -- A bare key begins like no header, no comment and no empty line.
  have hplain : (d = '#' || d = '\n' || d = '\r') = false := by
    simp [hne (e := '#') rfl, hne (e := '\n') rfl, hne (e := '\r') rfl]
  rw [hkey, List.cons_append] at hreads
  rw [hmove, hkey, List.cons_append, line?, skipBlanks_of_isBare hd]
  split
  · next heq => cases heq
  · next heq => exact absurd (List.cons.inj heq).1 (hne rfl)
  · next heq =>
    obtain ⟨rfl, rfl⟩ := List.cons.inj heq
    rw [if_neg (by simpa using hplain)]
    have hdepth : depthLimit - 1 = 78 + 1 := rfl
    rw [hdepth, hreads]
    rfl

end

/-! ## Texts of many lines -/

/-- Lines that read as a statement each. -/
def Printed (lines : List String) (statements : List Statement) : Prop :=
  List.Forall₂ (fun line s => IsPiece line? (line ++ "\n").toList (some s)) lines statements

/-- A text that is made of whole lines, with the statements in them. -/
def Lines (text : String) (statements : List Statement) : Prop :=
  ∃ chunks : List (List Char × Option Statement), (∀ x ∈ chunks, IsPiece line? x.1 x.2) ∧
    text.toList = (chunks.map (·.1)).flatten ∧ (chunks.map (·.2)).filterMap id = statements

namespace Lines

variable {text text' : String} {stmts stmts' : List Statement}

/-- No text is no lines. -/
theorem nil : Lines "" [] := ⟨[], by simp, rfl, rfl⟩

/-- Lines are read one after the other. -/
theorem append (h : Lines text stmts) (h' : Lines text' stmts') :
    Lines (text ++ text') (stmts ++ stmts') := by
  obtain ⟨chunks, hpieces, htext, hstmts⟩ := h
  obtain ⟨chunks', hpieces', htext', hstmts'⟩ := h'
  refine ⟨chunks ++ chunks', ?_, ?_, ?_⟩
  · exact fun x hx => (List.mem_append.1 hx).elim (hpieces x) (hpieces' x)
  · rw [String.toList_append, htext, htext', List.map_append, List.flatten_append]
  · rw [List.map_append, List.filterMap_append, hstmts, hstmts']

/-- What is read as one line is lines. -/
theorem of_isPiece {a : Option Statement} (h : IsPiece line? text.toList a) :
    Lines text a.toList := by
  refine ⟨[(text.toList, a)], by simpa using h, by simp, ?_⟩
  cases a <;> rfl

/-- A text of whole lines reads as its statements, put together. -/
theorem read_eq (h : Lines text stmts) : read text = assemble stmts := by
  obtain ⟨chunks, hpieces, htext, hstmts⟩ := h
  have hmany : many line? text.toList = (chunks.map (·.2), []) := by
    have hpieces' := many_pieces hpieces []
    rw [List.append_nil, ← htext, many_of_none (s := []) rfl, List.append_nil] at hpieces'
    exact hpieces'
  -- No line begins with a byte order mark, so the text does not.
  have hmark : skipMark text.toList = text.toList := by
    unfold skipMark
    split
    · next r heq =>
      have hnone : line? ('\ufeff' :: r) = none := rfl
      rw [heq, many_of_none hnone] at hmany
      cases (Prod.mk.inj hmany).2
    · rfl
  rw [read, hmark, statements?, hmany]
  simp only [hstmts]
  rfl

/-- Lines with a line end each. -/
theorem join {lines : List String} (h : Printed lines stmts) :
    Lines (String.join (lines.map (· ++ "\n"))) stmts := by
  induction h with
  | nil => exact nil
  | cons hline _ ih =>
    rw [List.map_cons, String.join_cons]
    exact (of_isPiece hline).append ih

/-- Blocks with a blank line between each two of them. -/
theorem intercalate {texts : List String} {blocks : List (List Statement)}
    (h : List.Forall₂ Lines texts blocks) : Lines ("\n".intercalate texts) blocks.flatten := by
  induction h with
  | nil => exact nil
  | @cons text block texts blocks htext h ih =>
    cases h with
    | nil =>
      rw [String.intercalate_singleton, List.flatten_singleton]
      exact htext
    | @cons text' block' texts' blocks' htext' h' =>
      rw [String.intercalate_cons_cons, List.flatten_cons]
      have hblank : Lines "\n" [] := @of_isPiece "\n" none isPiece_blankLine
      have hboth := (htext.append hblank).append ih
      rwa [List.append_nil] at hboth

end Lines

/-! ## Printed documents -/

/-- The statement of a plain entry. -/
def entryOf (e : String × Value) : Statement := .entry ⟨[], e.1⟩ e.2

/-- The lines printed for plain entries are read as these entries. -/
theorem printed_printEntries {entries : List (String × Value)}
    (hbare : ∀ e ∈ entries, isBareKey e.1 = true) (hinline : ∀ e ∈ entries, e.2.Inline) :
    Printed (printEntries entries) (entries.map entryOf) := by
  induction entries with
  | nil => exact .nil
  | cons e entries ih =>
    obtain ⟨he, hentries⟩ := List.forall_mem_cons.1 hbare
    obtain ⟨hv, hvs⟩ := List.forall_mem_cons.1 hinline
    exact .cons (isPiece_entry he hv.isValue) (ih hentries hvs)

/-- Entries with keys that are written as they are, each once. -/
structure Keyed (entries : List (String × Value)) : Prop where
  bare : ∀ e ∈ entries, isBareKey e.1 = true
  nodup : (entries.map (·.1)).Nodup

/-- Entries are keyed when their keys are taken in order from a list of bare keys without
repetition. -/
theorem keyed_of_sublist {entries : List (String × Value)} (keys : List String)
    (hkeys : (entries.map (·.1)).Sublist keys) (hbare : ∀ k ∈ keys, isBareKey k = true)
    (hnodup : keys.Nodup) : Keyed entries :=
  ⟨fun _ he => hbare _ (hkeys.subset (List.mem_map_of_mem he)), hnodup.sublist hkeys⟩

/-- Entries that stand on a line each. -/
structure Record (entries : List (String × Value)) : Prop extends Keyed entries where
  inline : ∀ e ∈ entries, e.2.Inline

namespace Value

variable {key : String} {v : Value}

/-- A value that is written as blocks: a table, or tables one after another. -/
inductive Section : Value → Prop where
  | table {entries : List (String × Value)} (h : Record entries) : Section (.table entries)
  | tables {records : List (List (String × Value))} (hne : records ≠ [])
      (h : ∀ entries ∈ records, Record entries) : Section (.array (records.map .table))

/-- The statements of the blocks that a value takes. -/
def sections (key : String) : Value → List (List Statement)
  | .table entries => [.table ⟨[], key⟩ :: entries.map entryOf]
  | .array elements =>
    (elements.filterMap entries?).map fun entries => .element ⟨[], key⟩ :: entries.map entryOf
  | _ => []

/-- What is printed on one line needs no block of its own. -/
theorem Inline.blocks_eq (h : v.Inline) : v.blocks key = [] := by
  match v, h with
  | .text _, _ | .integer _, _ | .float _, _ | .flag _, _ | .array [], _ => rfl

/-- What is printed on one line opens no section. -/
theorem Inline.sections_eq (h : v.Inline) : v.sections key = [] := by
  match v, h with
  | .text _, _ | .integer _, _ | .float _, _ | .flag _, _ | .array [], _ => rfl

/-- Tables are told from other values one by one, and none is lost. -/
theorem mapM_entries? (records : List (List (String × Value))) :
    (records.map Value.table).mapM entries? = some records := by
  induction records with
  | nil => rfl
  | cons r records ih =>
    rw [List.map_cons, List.mapM_cons, ih]
    rfl

/-- The entries of tables are those of each of them. -/
theorem filterMap_entries? (records : List (List (String × Value))) :
    (records.map Value.table).filterMap entries? = records := by
  rw [List.filterMap_map]
  exact List.filterMap_some

/-- A section is printed as a block at least. -/
theorem Section.blocks_ne_nil (h : v.Section) : v.blocks key ≠ [] := by
  cases h with
  | table => exact List.cons_ne_nil _ _
  | @tables records hne h =>
    rw [blocks, mapM_entries?]
    exact fun hnil => hne (List.map_eq_nil_iff.1 hnil)

/-- The blocks of a section are printed as its statements, and none is empty. -/
theorem Section.printed (hkey : isBareKey key = true) (h : v.Section) :
    List.Forall₂ (fun lines statements => lines ≠ [] ∧ Printed lines statements) (v.blocks key)
      (v.sections key) := by
  cases h with
  | table h =>
    have hlines := printed_printEntries h.bare h.inline
    exact .cons ⟨List.cons_ne_nil _ _, .cons (isPiece_header hkey) hlines⟩ .nil
  | @tables records hne h =>
    rw [blocks, mapM_entries?, sections, filterMap_entries?]
    refine List.forall₂_map_left_iff.2 (List.forall₂_map_right_iff.2 (List.forall₂_same.2 ?_))
    intro entries hentries
    have hlines := printed_printEntries (h entries hentries).bare (h entries hentries).inline
    exact ⟨List.cons_ne_nil _ _, .cons (isPiece_element hkey) hlines⟩

end Value

/-- A document of plain entries and sections. -/
structure Document (entries : List (String × Value)) : Prop extends Keyed entries where
  shape : ∀ e ∈ entries, e.2.Inline ∨ e.2.Section

/-- Whether an entry stands before the sections. -/
def isPlainEntry (e : String × Value) : Bool := (e.2.blocks e.1).isEmpty

/-- The blocks printed for a document are read as its sections, block by block. -/
theorem blocks_printed {entries : List (String × Value)}
    (hbare : ∀ e ∈ entries, isBareKey e.1 = true)
    (hshape : ∀ e ∈ entries, e.2.Inline ∨ e.2.Section) :
    List.Forall₂ (fun lines statements => lines ≠ [] ∧ Printed lines statements)
      (entries.flatMap fun e => e.2.blocks e.1) (entries.flatMap fun e => e.2.sections e.1) := by
  induction entries with
  | nil => exact .nil
  | cons e entries ih =>
    obtain ⟨he, hbare⟩ := List.forall_mem_cons.1 hbare
    obtain ⟨hv, hshape⟩ := List.forall_mem_cons.1 hshape
    rw [List.flatMap_cons, List.flatMap_cons]
    refine List.rel_append ?_ (ih hbare hshape)
    rcases hv with hinline | hsection
    · rw [hinline.blocks_eq, hinline.sections_eq]
      exact .nil
    · exact hsection.printed he

/-- Blocks with an empty line between them are read as their sections, one after the other. -/
theorem Lines.blocks {blocks : List (List String)} {sections : List (List Statement)}
    (h : List.Forall₂ (fun lines statements => lines ≠ [] ∧ Printed lines statements) blocks
      sections) :
    Lines ("\n".intercalate ((blocks.filter (!·.isEmpty)).map fun lines =>
      String.join (lines.map (· ++ "\n")))) sections.flatten := by
  refine Lines.intercalate ?_
  induction h with
  | nil => exact .nil
  | cons hlines _ ih =>
    rw [List.filter_cons_of_pos (by simpa using hlines.1)]
    exact .cons (Lines.join hlines.2) ih

/-- A printed document reads as its plain entries, and then its sections. -/
theorem Document.lines {entries : List (String × Value)} (h : Document entries) :
    Lines (print entries) ((entries.filter isPlainEntry).map entryOf ++
      (entries.flatMap fun e => e.2.sections e.1).flatten) := by
  have hsections := blocks_printed h.bare h.shape
  have hplain : Printed (printEntries (entries.filter isPlainEntry))
      ((entries.filter isPlainEntry).map entryOf) := by
    refine printed_printEntries (fun e he => h.bare e (List.mem_of_mem_filter he)) fun e he => ?_
    obtain ⟨he, hempty⟩ := List.mem_filter.1 he
    refine (h.shape e he).resolve_right fun hsection => ?_
    exact hsection.blocks_ne_nil (List.isEmpty_iff.1 hempty)
  change Lines ("\n".intercalate (((printEntries (entries.filter isPlainEntry) ::
    entries.flatMap fun e => e.2.blocks e.1).filter (!·.isEmpty)).map _)) _
  cases hentries : entries.filter isPlainEntry with
  | nil =>
    rw [printEntries, List.filter_cons_of_neg (by simp)]
    exact Lines.blocks hsections
  | cons e plain =>
    rw [hentries] at hplain
    exact Lines.blocks (.cons ⟨List.cons_ne_nil _ _, hplain⟩ hsections)

end RenderStream.Toml
