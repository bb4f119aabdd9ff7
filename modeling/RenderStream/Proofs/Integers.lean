import Mathlib.Data.Option.Basic
import RenderStream.Settings.Text

/-!
# Integers that a document can hold

The reader refuses an integer outside 64 bits with a sign, wherever it stands: what a document is
read as holds none (`Toml.fit_of_read`). Values come from words, arrays and inline tables, each of
which hands on the integers of its parts; putting a document together moves values under other keys
and into other tables, and changes none (`Entries.Fit.descend`).
-/

namespace RenderStream

namespace Settings

/-- An array fits when each of its values does. -/
theorem allFit_iff {vs : List Toml.Value} : allFit vs = true ↔ ∀ v ∈ vs, fits v = true := by
  induction vs with
  | nil => simp [allFit]
  | cons v vs ih => rw [allFit, Bool.and_eq_true, ih, List.forall_mem_cons]

/-- A table fits when each of its values does. -/
theorem entriesFit_iff {es : List (String × Toml.Value)} :
    entriesFit es = true ↔ ∀ e ∈ es, fits e.2 = true := by
  induction es with
  | nil => simp [entriesFit]
  | cons e es ih => rw [entriesFit, Bool.and_eq_true, ih, List.forall_mem_cons]

end Settings

namespace Toml

open Settings (fits allFit_iff entriesFit_iff)

/-! ## Documents under construction -/

section
variable {entries inner new : Entries} {elements : List Entries} {key : String} {t : Tree}
  {v : Value} {d d' : Draft}

/-- The finished entries are the entries with their trees finished. -/
theorem mem_finishEntries {e : String × Value} :
    e ∈ finishEntries entries ↔ ∃ x ∈ entries, (x.1, x.2.finish) = e := by
  induction entries with
  | nil => simp [finishEntries]
  | cons x entries ih => simp [finishEntries, ih, eq_comm (a := e)]

namespace Entries

/-- Every integer under some keys fits into a document. -/
def Fit (entries : Entries) : Prop := ∀ e ∈ entries, fits e.2.finish = true

/-- No entries fit. -/
theorem fit_nil : Fit [] := fun _ => nofun

/-- Entries of trees fit just when the finished entries do. -/
theorem fit_iff : entries.Fit ↔ Settings.entriesFit (finishEntries entries) = true := by
  rw [entriesFit_iff]
  constructor
  · intro h e he
    obtain ⟨x, hx, rfl⟩ := mem_finishEntries.1 he
    exact h x hx
  · exact fun h x hx => h _ (mem_finishEntries.2 ⟨x, hx, rfl⟩)

/-- A table that is still open fits when its entries do. -/
theorem fits_table {origin : Origin} :
    fits (Tree.table origin inner).finish = true ↔ inner.Fit := by
  rw [Tree.finish, fits, fit_iff]

/-- An array of tables fits when the entries of each element do. -/
theorem fits_tables :
    fits (Tree.tables elements).finish = true ↔ ∀ inner ∈ elements, inner.Fit := by
  rw [Tree.finish, fits]
  induction elements with
  | nil => simp [finishElements, Settings.allFit]
  | cons inner elements ih =>
    rw [finishElements, Settings.allFit, Bool.and_eq_true, ih, fits, ← fit_iff,
      List.forall_mem_cons]

/-- An entry that fits may be added at the end. -/
theorem Fit.snoc (h : entries.Fit) (ht : fits t.finish = true) : Fit (entries ++ [(key, t)]) :=
  List.forall_mem_append.2 ⟨h, List.forall_mem_singleton.2 ht⟩

/-- An entry that fits may be put in place of an older one. -/
theorem Fit.put (h : entries.Fit) (ht : fits t.finish = true) : (entries.put key t).Fit := by
  unfold Entries.put
  split
  · intro e he
    obtain ⟨x, hx, rfl⟩ := List.mem_map.1 he
    split
    · exact ht
    · exact h x hx
  · exact h.snoc ht

/-- What is found among entries that fit does so too. -/
theorem Fit.lookup (h : entries.Fit) (hlookup : entries.lookup key = some t) :
    fits t.finish = true := by
  obtain ⟨before, after, rfl, -⟩ := List.lookup_eq_some_iff.1 hlookup
  exact h (key, t) (by simp)

/-- A change that keeps integers in range does so at the end of any path. -/
theorem Fit.descend {dotted : Bool} {change : Origin → Entries → Option Entries}
    (hchange : ∀ {origin inner new}, inner.Fit → change origin inner = some new → new.Fit)
    {origin : Origin} {path : List String} (h : entries.Fit)
    (hdescend : entries.descend dotted change origin path = some new) : new.Fit := by
  induction path generalizing origin entries new with
  | nil => exact hchange h hdescend
  | cons key path ih =>
    -- The table on the way is made now, stood there, or is the last of an array.
    rw [Entries.descend] at hdescend
    split at hdescend
    · obtain ⟨inner, hinner, hnew⟩ := Option.bind_eq_some_iff.1 hdescend
      obtain rfl := Option.some.inj hnew
      exact h.put (fits_table.2 (ih fit_nil hinner))
    · next origin inner hlookup =>
      split at hdescend
      · cases hdescend
      · obtain ⟨inner', hinner, hnew⟩ := Option.bind_eq_some_iff.1 hdescend
        obtain rfl := Option.some.inj hnew
        exact h.put (fits_table.2 (ih (fits_table.1 (h.lookup hlookup)) hinner))
    · next elements hlookup =>
      obtain ⟨final, hfinal, hdescend⟩ := Option.bind_eq_some_iff.1 hdescend
      obtain ⟨final', hfinal', hnew⟩ := Option.bind_eq_some_iff.1 hdescend
      obtain rfl := Option.some.inj hnew
      have helements := fits_tables.1 (h.lookup hlookup)
      have hlast : final'.Fit := ih (helements final (List.mem_of_getLast? hfinal)) hfinal'
      refine h.put (fits_tables.2 (List.forall_mem_append.2
        ⟨?_, List.forall_mem_singleton.2 hlast⟩))
      exact fun inner hinner => helements inner (((List.dropLast_sublist elements).subset hinner))
    · cases hdescend

/-- A value that fits, put under a path, leaves entries that fit. -/
theorem Fit.insert {key : Path} (h : entries.Fit) (hv : fits v = true)
    (hnew : entries.insert key v = some new) : new.Fit := by
  refine h.descend (fun hinner hchange => ?_) hnew
  split at hchange
  · cases hchange
  · split at hchange
    · cases hchange
    · obtain rfl := Option.some.inj hchange
      exact hinner.snoc hv

/-- A value that fits, put under a path below a header, leaves entries that fit. -/
theorem Fit.insertUnder {header : Option Path} {key : Path} (h : entries.Fit)
    (hv : fits v = true) (hnew : entries.insertUnder header key v = some new) : new.Fit := by
  cases header with
  | none => exact h.insert hv hnew
  | some header => exact h.descend (fun hinner => hinner.insert hv) hnew

/-- The table that a key opens fits when the entries do. -/
theorem Fit.opened (h : entries.Fit) (hopened : entries.opened key = some inner) : inner.Fit := by
  unfold Entries.opened at hopened
  split at hopened
  · obtain rfl := Option.some.inj hopened
    exact fit_nil
  · next hlookup =>
    obtain rfl := Option.some.inj hopened
    exact fits_table.1 (h.lookup hlookup)
  · cases hopened

/-- A header opens a table and adds no value. -/
theorem Fit.openTable {key : Path} (h : entries.Fit) (hnew : entries.openTable key = some new) :
    new.Fit := by
  refine h.descend (fun hinner hchange => ?_) hnew
  obtain ⟨old, hold, hchange⟩ := Option.bind_eq_some_iff.1 hchange
  obtain rfl := Option.some.inj hchange
  exact hinner.put (fits_table.2 (hinner.opened hold))

/-- A header of an element opens a table and adds no value. -/
theorem Fit.openElement {key : Path} (h : entries.Fit)
    (hnew : entries.openElement key = some new) : new.Fit := by
  refine h.descend (fun hinner hchange => ?_) hnew
  split at hchange
  · obtain rfl := Option.some.inj hchange
    exact hinner.snoc (fits_tables.2 (List.forall_mem_singleton.2 fit_nil))
  · next hlookup =>
    obtain rfl := Option.some.inj hchange
    refine hinner.put (fits_tables.2 (List.forall_mem_append.2
      ⟨?_, List.forall_mem_singleton.2 fit_nil⟩))
    exact fits_tables.1 (hinner.lookup hlookup)
  · cases hchange

end Entries

/-- The value of a statement, if it has one, fits into a document. -/
def Statement.Fits : Statement → Prop
  | .entry _ v => fits v = true
  | .table _ | .element _ => True

/-- A statement that fits, added to a draft that fits, leaves one that fits. -/
theorem Draft.add_fit {s : Statement} (h : d.entries.Fit) (hs : s.Fits) (hadd : d.add s = some d') :
    d'.entries.Fit := by
  cases s with
  | entry key v =>
    obtain ⟨entries, hentries, hadd⟩ := Option.bind_eq_some_iff.1 hadd
    obtain rfl := Option.some.inj hadd
    exact h.insertUnder hs hentries
  | table key =>
    obtain ⟨entries, hentries, hadd⟩ := Option.bind_eq_some_iff.1 hadd
    obtain rfl := Option.some.inj hadd
    exact h.openTable hentries
  | element key =>
    obtain ⟨entries, hentries, hadd⟩ := Option.bind_eq_some_iff.1 hadd
    obtain rfl := Option.some.inj hadd
    exact h.openElement hentries

/-- What every step keeps, a run keeps. -/
theorem foldlM_keeps {α β : Type} {step : β → α → Option β} {P : β → Prop} {Q : α → Prop}
    (hstep : ∀ {b a b'}, P b → Q a → step b a = some b' → P b') {as : List α}
    (has : ∀ a ∈ as, Q a) {b b' : β} (hb : P b) (hrun : as.foldlM step b = some b') : P b' := by
  induction as generalizing b with
  | nil => exact Option.some.inj hrun ▸ hb
  | cons a as ih =>
    obtain ⟨ha, has⟩ := List.forall_mem_cons.1 has
    rw [List.foldlM_cons] at hrun
    obtain ⟨next, hnext, hrun⟩ := Option.bind_eq_some_iff.1 hrun
    exact ih has (hstep hb ha hnext) hrun

/-- A document put together from statements that fit does so too. -/
theorem fit_of_assemble {statements : List Statement} {es : List (String × Value)}
    (hs : ∀ s ∈ statements, s.Fits) (h : assemble statements = some es) :
    Settings.entriesFit es = true := by
  obtain ⟨d, hd, h⟩ := Option.bind_eq_some_iff.1 h
  obtain rfl := Option.some.inj h
  exact Entries.fit_iff.1 (foldlM_keeps (P := (·.entries.Fit)) Draft.add_fit hs Entries.fit_nil hd)

/-- A table on one line that is put together from values that fit does so too. -/
theorem fit_of_assembleInline {entries : List (Path × Value)} {es : List (String × Value)}
    (hentries : ∀ e ∈ entries, fits e.2 = true) (h : assembleInline entries = some es) :
    Settings.entriesFit es = true := by
  obtain ⟨inner, hinner, h⟩ := Option.bind_eq_some_iff.1 h
  obtain rfl := Option.some.inj h
  refine Entries.fit_iff.1 (foldlM_keeps (P := Entries.Fit) ?_ hentries Entries.fit_nil hinner)
  exact fun hb he => hb.insert he

end

/-! ## Values that are read -/

/-- Every value that a reader takes fits into a document. -/
def ReadsFit (value : Reader Value) : Prop :=
  ∀ (s rest : List Char) (v : Value), value s = some (v, rest) → fits v = true

section
variable {α : Type} {value : Reader Value} {s rest : List Char} {v : Value}

/-- What holds of every piece that is read holds of all pieces read in a row. -/
theorem forall_mem_many {piece : Reader α} {P : α → Prop}
    (hpiece : ∀ {s rest a}, piece s = some (a, rest) → P a) (s : List Char) :
    ∀ a ∈ (many piece s).1, P a := by
  induction s using many.induct piece with
  | case1 s hnone =>
    rw [many, hnone]
    exact fun _ => nofun
  | case2 s a rest hsome hlength more final hmore ih =>
    rw [many, hsome]
    simp only [if_pos hlength]
    exact List.forall_mem_cons.2 ⟨hpiece hsome, ih⟩
  | case3 s a rest hsome hlength =>
    rw [many, hsome]
    simp only [if_neg hlength]
    exact fun _ => nofun

/-- An integer that passes the bound is one that a document can hold. -/
theorem isInteger_of_bounded {n m : Int} (h : bounded n = some m) : isInteger m = true := by
  unfold bounded at h
  split at h
  · next hn => exact Option.some.inj h ▸ hn
  · cases h

/-- What is read as an integer is one that a document can hold. -/
theorem isInteger_of_integer? {cs : List Char} {n : Int} (h : integer? cs = some n) :
    isInteger n = true := by
  unfold integer? at h
  split at h <;> obtain ⟨digits, -, h⟩ := Option.bind_eq_some_iff.1 h <;>
    exact isInteger_of_bounded h

/-- A word that is read as a value fits. -/
theorem fits_scalar? {cs : List Char} (h : scalar? cs = some v) : fits v = true := by
  unfold scalar? at h
  split at h
  · exact Option.some.inj h ▸ rfl
  split at h
  · exact Option.some.inj h ▸ rfl
  split at h
  · exact Option.some.inj h ▸ rfl
  rcases (Option.orElse_eq_some _ _ _).1 h with h | ⟨-, h⟩
  · obtain ⟨x, -, rfl⟩ := Option.map_eq_some_iff.1 h
    rfl
  · obtain ⟨n, hn, rfl⟩ := Option.map_eq_some_iff.1 h
    exact isInteger_of_integer? hn

/-- Words are read as values that fit. -/
theorem readsFit_word? : ReadsFit word? := by
  intro s rest v h
  obtain ⟨w, hw, h⟩ := Option.bind_eq_some_iff.1 h
  have hfits := fits_scalar? hw
  split at h
  · dsimp only at h
    split at h
    · obtain ⟨rfl, -⟩ := Prod.mk.inj (Option.some.inj h)
      rfl
    · obtain ⟨rfl, -⟩ := Prod.mk.inj (Option.some.inj h)
      exact hfits
  · obtain ⟨rfl, -⟩ := Prod.mk.inj (Option.some.inj h)
    exact hfits

/-- An element of an array fits when values do. -/
theorem ReadsFit.element? (h : ReadsFit value) : ReadsFit (element? value) := by
  intro s rest v helement
  obtain ⟨⟨w, r⟩, hw, helement⟩ := Option.bind_eq_some_iff.1 helement
  obtain ⟨rfl, -⟩ := Prod.mk.inj (Option.some.inj helement)
  exact h _ _ _ hw

/-- An array that is read fits when its values do. -/
theorem ReadsFit.array? (h : ReadsFit value) : ReadsFit (array? value) := by
  intro s rest v harray
  unfold Toml.array? at harray
  split at harray
  · obtain ⟨r, -, harray⟩ := Option.bind_eq_some_iff.1 harray
    obtain ⟨rfl, -⟩ := Prod.mk.inj (Option.some.inj harray)
    rfl
  · next first r hfirst =>
    obtain ⟨r', -, harray⟩ := Option.bind_eq_some_iff.1 harray
    obtain ⟨rfl, -⟩ := Prod.mk.inj (Option.some.inj harray)
    rw [fits, allFit_iff]
    refine List.forall_mem_cons.2 ⟨h.element? _ _ _ hfirst, forall_mem_many (fun hmore => ?_) r⟩
    obtain ⟨r', -, hmore⟩ := Option.bind_eq_some_iff.1 hmore
    exact h.element? _ _ _ hmore

/-- The value of an entry fits when values do. -/
theorem ReadsFit.fits_entry (h : ReadsFit value) {e : Path × Value}
    (hentry : entry? value s = some (e, rest)) : fits e.2 = true := by
  obtain ⟨⟨key, r⟩, -, hentry⟩ := Option.bind_eq_some_iff.1 hentry
  obtain ⟨r', -, hentry⟩ := Option.bind_eq_some_iff.1 hentry
  obtain ⟨⟨v, r''⟩, hv, hentry⟩ := Option.bind_eq_some_iff.1 hentry
  obtain ⟨rfl, -⟩ := Prod.mk.inj (Option.some.inj hentry)
  exact h _ _ _ hv

/-- The value of an entry on one line fits when values do. -/
theorem ReadsFit.fits_inlineEntry (h : ReadsFit value) {e : Path × Value}
    (hentry : inlineEntry? value s = some (e, rest)) : fits e.2 = true := by
  obtain ⟨⟨e', r⟩, he, hentry⟩ := Option.bind_eq_some_iff.1 hentry
  obtain ⟨rfl, -⟩ := Prod.mk.inj (Option.some.inj hentry)
  exact h.fits_entry he

/-- A table that is read on one line fits when its values do. -/
theorem ReadsFit.inlineTable? (h : ReadsFit value) : ReadsFit (inlineTable? value) := by
  intro s rest v htable
  unfold Toml.inlineTable? at htable
  split at htable
  next entries r hentries =>
  obtain ⟨r', -, htable⟩ := Option.bind_eq_some_iff.1 htable
  obtain ⟨es, hes, htable⟩ := Option.bind_eq_some_iff.1 htable
  obtain ⟨rfl, -⟩ := Prod.mk.inj (Option.some.inj htable)
  refine fit_of_assembleInline ?_ hes
  split at hentries
  · obtain ⟨rfl, -⟩ := Prod.mk.inj hentries
    exact fun _ => nofun
  · next first r hfirst =>
    obtain ⟨rfl, -⟩ := Prod.mk.inj hentries
    refine List.forall_mem_cons.2 ⟨h.fits_inlineEntry hfirst, forall_mem_many (fun hmore => ?_) r⟩
    obtain ⟨r', -, hmore⟩ := Option.bind_eq_some_iff.1 hmore
    exact h.fits_inlineEntry hmore

/-- A value is read by what is read with one level of nesting less. -/
theorem readsFit_nested {depth : Nat} (h : ∀ {d}, depth = d + 1 → ReadsFit (value? d)) :
    ReadsFit (value? depth) := by
  intro s rest v hvalue
  unfold value? at hvalue
  split at hvalue
  · obtain ⟨x, -, hv⟩ := Option.map_eq_some_iff.1 hvalue
    obtain ⟨rfl, -⟩ := Prod.mk.inj hv
    rfl
  · obtain ⟨x, -, hv⟩ := Option.map_eq_some_iff.1 hvalue
    obtain ⟨rfl, -⟩ := Prod.mk.inj hv
    rfl
  · split at hvalue
    · cases hvalue
    · exact (h rfl).array? _ _ _ hvalue
  · split at hvalue
    · cases hvalue
    · exact (h rfl).inlineTable? _ _ _ hvalue
  · exact readsFit_word? _ _ _ hvalue

/-- Values are read so that they fit, at every depth. -/
theorem readsFit_value? (depth : Nat) : ReadsFit (value? depth) := by
  induction depth with
  | zero => exact readsFit_nested fun hd => nomatch hd
  | succ depth ih => exact readsFit_nested fun hd => Nat.succ.inj hd ▸ ih

end

/-! ## Documents that are read -/

/-- A header holds no value that could not fit. -/
theorem fits_of_header? {s rest : List Char} {header : Statement}
    (h : header? s = some (header, rest)) : header.Fits := by
  unfold header? at h
  split at h
  · obtain ⟨⟨key, r⟩, -, h⟩ := Option.bind_eq_some_iff.1 h
    obtain ⟨r₁, -, h⟩ := Option.bind_eq_some_iff.1 h
    obtain ⟨r₂, -, h⟩ := Option.bind_eq_some_iff.1 h
    obtain ⟨rfl, -⟩ := Prod.mk.inj (Option.some.inj h)
    trivial
  · obtain ⟨⟨key, r⟩, -, h⟩ := Option.bind_eq_some_iff.1 h
    obtain ⟨r₁, -, h⟩ := Option.bind_eq_some_iff.1 h
    obtain ⟨rfl, -⟩ := Prod.mk.inj (Option.some.inj h)
    trivial

/-- A line that is read fits. -/
theorem fits_of_line? {s rest : List Char} {line : Option Statement}
    (h : line? s = some (line, rest)) : ∀ s ∈ line, s.Fits := by
  unfold line? at h
  split at h
  · cases h
  · obtain ⟨⟨header, r⟩, hheader, h⟩ := Option.bind_eq_some_iff.1 h
    obtain ⟨r', -, h⟩ := Option.bind_eq_some_iff.1 h
    obtain ⟨rfl, -⟩ := Prod.mk.inj (Option.some.inj h)
    rintro s ⟨⟩
    exact fits_of_header? hheader
  · split at h
    · obtain ⟨r, -, hline⟩ := Option.map_eq_some_iff.1 h
      obtain ⟨rfl, -⟩ := Prod.mk.inj hline
      exact nofun
    · obtain ⟨⟨⟨key, v⟩, r⟩, hentry, h⟩ := Option.bind_eq_some_iff.1 h
      obtain ⟨r', -, h⟩ := Option.bind_eq_some_iff.1 h
      obtain ⟨rfl, -⟩ := Prod.mk.inj (Option.some.inj h)
      rintro s ⟨⟩
      exact (readsFit_value? _).fits_entry hentry

/-- No integer of a document that is read is out of range. -/
theorem fit_of_read {text : String} {es : List (String × Value)} (h : read text = some es) :
    Settings.entriesFit es = true := by
  obtain ⟨statements, hstatements, h⟩ := Option.bind_eq_some_iff.1 h
  refine fit_of_assemble ?_ h
  unfold statements? at hstatements
  dsimp only at hstatements
  split at hstatements
  · obtain rfl := Option.some.inj hstatements
    intro s hs
    obtain ⟨line, hline, hs⟩ := List.mem_filterMap.1 hs
    exact forall_mem_many (P := fun line => ∀ s ∈ line, s.Fits) fits_of_line? _ line hline s hs
  · cases hstatements

end Toml

end RenderStream
