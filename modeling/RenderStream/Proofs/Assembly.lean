import Mathlib.Data.List.Nodup
import RenderStream.Proofs.Lines

/-!
# Documents that are put together again

A printed document mentions each key once, so every statement of it changes the end of the document
under construction: a plain entry goes behind the others, a header opens a table behind all that
stands so far (`Draft.add_table`, `Draft.add_element`), and the entries below it fill that table
(`Draft.add_entry`). Filling is the same whether the table stands by itself or as the last of an
array (`filling`). What a printed document is read as is therefore the document with its sections
moved behind its plain entries (`Document.read_print`).
-/

namespace RenderStream.Toml

namespace Entries

variable {entries inner : Entries} {key : String} {t t' : Tree} {v : Value}

/-- No entry stands under a key. -/
def Lacks (entries : Entries) (key : String) : Prop := ∀ e ∈ entries, e.1 ≠ key

/-- A key that entries lack is not found. -/
theorem Lacks.lookup_eq (h : entries.Lacks key) : entries.lookup key = none := by
  rw [List.lookup_eq_none_iff]
  exact fun e he => by simpa using (h e he).symm

/-- No entry is under a key that entries lack. -/
theorem Lacks.any_eq (h : entries.Lacks key) : entries.any (·.1 == key) = false := by
  rw [List.any_eq_false]
  exact fun e he => by simpa using h e he

/-- A new entry at the end is found. -/
theorem Lacks.lookup_snoc (h : entries.Lacks key) :
    (entries ++ [(key, t)]).lookup key = some t := by
  rw [List.lookup_append, h.lookup_eq]
  simp

/-- What is put under a new key comes at the end. -/
theorem Lacks.put_eq (h : entries.Lacks key) : entries.put key t = entries ++ [(key, t)] := by
  rw [put, h.any_eq, if_neg Bool.false_ne_true]

/-- What is put under the key of the last entry takes its place. -/
theorem Lacks.put_snoc (h : entries.Lacks key) :
    Entries.put (entries ++ [(key, t)]) key t' = entries ++ [(key, t')] := by
  have hany : (entries ++ [(key, t)]).any (·.1 == key) = true := by simp
  have hmap : entries.map (fun e => if e.1 == key then (key, t') else e) = entries := by
    rw [List.map_congr_left (g := id), List.map_id]
    exact fun e he => if_neg (by simpa using h e he)
  rw [put, if_pos hany, List.map_append, hmap]
  simp

/-- Keys that are not there yet, and not the one that is put at the end. -/
theorem lacks_snoc {es : List (String × Value)} (h : ∀ e ∈ es, entries.Lacks e.1)
    (hkey : key ∉ es.map (·.1)) : ∀ e ∈ es, Lacks (entries ++ [(key, t)]) e.1 := by
  intro e he x hx
  obtain hx | hx := List.mem_append.1 hx
  · exact h e he x hx
  · rintro heq
    obtain rfl := List.mem_singleton.1 hx
    exact hkey (List.mem_map.2 ⟨e, he, heq.symm⟩)

/-- A value put into the document itself. -/
theorem Lacks.insert_eq (h : entries.Lacks key) :
    entries.insert ⟨[], key⟩ v = some (entries ++ [(key, .value v)]) := by
  rw [insert, descend, h.any_eq]
  rfl

/-- A table that is being filled: by itself, or behind others in an array. -/
def filling : Option (List Entries) → Entries → Tree
  | none, inner => .table .header inner
  | some before, inner => .tables (before ++ [inner])

/-- A change of the table that is being filled. -/
theorem Lacks.descend_eq (h : entries.Lacks key) (before : Option (List Entries))
    (change : Origin → Entries → Option Entries) :
    descend false change .header (entries ++ [(key, filling before inner)]) [key] =
      (change .header inner).map fun inner => entries ++ [(key, filling before inner)] := by
  rw [descend, h.lookup_snoc]
  cases before with
  | none =>
    simp only [filling, descend, Bool.false_and, Bool.false_eq_true, if_false, h.put_snoc]
    cases change .header inner <;> rfl
  | some before =>
    simp only [filling, descend, List.getLast?_concat, List.dropLast_concat, h.put_snoc,
      Option.bind_eq_bind, Option.bind_some]
    cases change .header inner <;> rfl

end Entries

/-! ## Finished entries -/

/-- The tree of a plain entry. -/
def valueTree (e : String × Value) : String × Tree := (e.1, .value e.2)

@[simp] theorem finishEntries_valueTree (es : List (String × Value)) :
    finishEntries (es.map valueTree) = es := by
  induction es with
  | nil => rfl
  | cons e es ih => rw [List.map_cons, valueTree, finishEntries, Tree.finish, ih]

/-- Entries are finished one by one. -/
theorem finishEntries_append (ts us : Entries) :
    finishEntries (ts ++ us) = finishEntries ts ++ finishEntries us := by
  induction ts with
  | nil => rfl
  | cons t ts ih => rw [List.cons_append, finishEntries, finishEntries, ih, List.cons_append]

/-- The elements of an array of tables are finished one by one. -/
theorem finishElements_valueTree (records : List (List (String × Value))) :
    finishElements (records.map (·.map valueTree)) = records.map .table := by
  induction records with
  | nil => rfl
  | cons r records ih =>
    rw [List.map_cons, finishElements, finishEntries_valueTree, ih, List.map_cons]

/-! ## Statements at the end -/

namespace Draft

open Entries (Lacks filling)

variable {entries : Entries} {key : String} {v : Value}

/-- Entries that follow one another, where each is put behind those before it. -/
theorem foldlM_entries (place : Entries → Draft)
    (hstep : ∀ {inner : Entries} {e : String × Value}, inner.Lacks e.1 →
      (place inner).add (entryOf e) = some (place (inner ++ [valueTree e])))
    {es : List (String × Value)} {inner : Entries} (hlacks : ∀ e ∈ es, inner.Lacks e.1)
    (hnodup : (es.map (·.1)).Nodup) :
    (es.map entryOf).foldlM Draft.add (place inner) = some (place (inner ++ es.map valueTree)) := by
  induction es generalizing inner with
  | nil =>
    rw [List.map_nil, List.map_nil, List.append_nil]
    rfl
  | cons e es ih =>
    obtain ⟨he, hes⟩ := List.forall_mem_cons.1 hlacks
    rw [List.map_cons, List.nodup_cons] at hnodup
    rw [List.map_cons, List.foldlM_cons, hstep he, List.map_cons,
      List.append_cons inner (valueTree e) (es.map valueTree)]
    exact ih (Entries.lacks_snoc hes hnodup.1) hnodup.2

/-- An entry of the document before any header is added at the end. -/
theorem add_plain {e : String × Value} (h : entries.Lacks e.1) :
    Draft.add ⟨entries, none⟩ (entryOf e) = some ⟨entries ++ [valueTree e], none⟩ := by
  rw [entryOf, add, Entries.insertUnder, h.insert_eq]
  rfl

/-- An entry below a header goes into the table that is being filled. -/
theorem add_entry {inner : Entries} (hkey : entries.Lacks key) (before : Option (List Entries))
    {e : String × Value} (h : inner.Lacks e.1) :
    Draft.add ⟨entries ++ [(key, filling before inner)], some ⟨[], key⟩⟩ (entryOf e) =
      some ⟨entries ++ [(key, filling before (inner ++ [valueTree e]))], some ⟨[], key⟩⟩ := by
  rw [entryOf, add, Entries.insertUnder, List.nil_append, hkey.descend_eq, h.insert_eq]
  rfl

/-- A header with a new key opens a table at the end. -/
theorem add_table (h : entries.Lacks key) (header : Option Path) :
    Draft.add ⟨entries, header⟩ (.table ⟨[], key⟩) =
      some ⟨entries ++ [(key, filling none [])], some ⟨[], key⟩⟩ := by
  rw [add, Entries.openTable, Entries.descend, Entries.opened, h.lookup_eq]
  simp only [Option.bind_eq_bind, Option.bind_some, h.put_eq]
  rfl

/-- A header of an array of tables adds an element, behind those that it has. -/
theorem add_element (h : entries.Lacks key) (header : Option Path) :
    Draft.add ⟨entries, header⟩ (.element ⟨[], key⟩) =
      some ⟨entries ++ [(key, filling (some []) [])], some ⟨[], key⟩⟩ := by
  rw [add, Entries.openElement, Entries.descend, h.lookup_eq]
  rfl

/-- A header of an element with the key of the array at the end opens an element behind the
others. -/
theorem add_element_behind (h : entries.Lacks key) (elements : List Entries)
    (header : Option Path) :
    Draft.add ⟨entries ++ [(key, .tables elements)], header⟩ (.element ⟨[], key⟩) =
      some ⟨entries ++ [(key, filling (some elements) [])], some ⟨[], key⟩⟩ := by
  rw [add, Entries.openElement, Entries.descend, h.lookup_snoc]
  simp only [h.put_snoc]
  rfl

/-- The entries below a header. -/
theorem foldlM_record (hkey : entries.Lacks key) (before : Option (List Entries))
    {es : List (String × Value)} (h : Record es) :
    (es.map entryOf).foldlM Draft.add ⟨entries ++ [(key, filling before [])], some ⟨[], key⟩⟩ =
      some ⟨entries ++ [(key, filling before (es.map valueTree))], some ⟨[], key⟩⟩ :=
  foldlM_entries (fun inner => ⟨entries ++ [(key, filling before inner)], some ⟨[], key⟩⟩)
    (add_entry hkey before) (fun _ _ => by simp [Lacks]) h.nodup

/-- Elements of an array of tables, one after another. -/
theorem foldlM_records (hkey : entries.Lacks key) {records : List (List (String × Value))}
    (h : ∀ es ∈ records, Record es) (before : List Entries) :
    (records.map fun es => Statement.element ⟨[], key⟩ :: es.map entryOf).flatten.foldlM Draft.add
        ⟨entries ++ [(key, .tables before)], some ⟨[], key⟩⟩ =
      some ⟨entries ++ [(key, .tables (before ++ records.map (·.map valueTree)))],
        some ⟨[], key⟩⟩ := by
  induction records generalizing before with
  | nil =>
    rw [List.map_nil, List.map_nil, List.append_nil]
    rfl
  | cons r records ih =>
    obtain ⟨hr, hrecords⟩ := List.forall_mem_cons.1 h
    rw [List.map_cons, List.flatten_cons, List.cons_append, List.foldlM_cons,
      add_element_behind hkey]
    simp only [Option.bind_eq_bind, Option.bind_some, List.foldlM_append, foldlM_record hkey _ hr]
    rw [List.map_cons,
      List.append_cons before (r.map valueTree) (records.map (·.map valueTree))]
    exact ih hrecords (before ++ [r.map valueTree])

/-- A section stands behind what was there, as the tree of its value. -/
theorem foldlM_section (hkey : entries.Lacks key) (h : v.Section) (header : Option Path) :
    ∃ t : Tree, t.finish = v ∧ (v.sections key).flatten.foldlM Draft.add ⟨entries, header⟩ =
      some ⟨entries ++ [(key, t)], some ⟨[], key⟩⟩ := by
  cases h with
  | @table es h =>
    refine ⟨filling none (es.map valueTree), ?_, ?_⟩
    · rw [filling, Tree.finish, finishEntries_valueTree]
    · rw [Value.sections, List.flatten_singleton, List.foldlM_cons, add_table hkey]
      exact foldlM_record hkey none h
  | @tables records hne h =>
    refine ⟨.tables (records.map (·.map valueTree)), ?_, ?_⟩
    · rw [Tree.finish, finishElements_valueTree]
    · rw [Value.sections, Value.filterMap_entries?]
      -- The first header makes the array, all others add to it.
      cases records with
      | nil => exact absurd rfl hne
      | cons r records =>
        obtain ⟨hr, hrecords⟩ := List.forall_mem_cons.1 h
        rw [List.map_cons, List.flatten_cons, List.cons_append, List.foldlM_cons, add_element hkey]
        simp only [Option.bind_eq_bind, Option.bind_some, List.foldlM_append,
          foldlM_record hkey _ hr]
        exact foldlM_records hkey hrecords [r.map valueTree]

/-- Sections stand behind what was there, in their order. -/
theorem foldlM_sections {es : List (String × Value)} (hlacks : ∀ e ∈ es, entries.Lacks e.1)
    (hnodup : (es.map (·.1)).Nodup) (hshape : ∀ e ∈ es, e.2.Section) (header : Option Path) :
    ∃ (ts : Entries) (header' : Option Path), finishEntries ts = es ∧
      (es.flatMap fun e => e.2.sections e.1).flatten.foldlM Draft.add ⟨entries, header⟩ =
        some ⟨entries ++ ts, header'⟩ := by
  induction es generalizing entries header with
  | nil =>
    refine ⟨[], header, rfl, ?_⟩
    rw [List.append_nil]
    rfl
  | cons e es ih =>
    obtain ⟨he, hes⟩ := List.forall_mem_cons.1 hlacks
    obtain ⟨hv, hvs⟩ := List.forall_mem_cons.1 hshape
    rw [List.map_cons, List.nodup_cons] at hnodup
    obtain ⟨t, ht, hrun⟩ := foldlM_section he hv header
    obtain ⟨ts, header', hts, hruns⟩ :=
      ih (Entries.lacks_snoc hes hnodup.1) hnodup.2 hvs (some ⟨[], e.1⟩)
    refine ⟨(e.1, t) :: ts, header', ?_, ?_⟩
    · rw [finishEntries, ht, hts]
    · rw [List.flatMap_cons, List.flatten_append, List.foldlM_append, hrun,
        List.append_cons entries (e.1, t) ts]
      exact hruns

end Draft

/-! ## Printed documents -/

/-- A document with its sections moved behind its plain entries. -/
def arranged (entries : List (String × Value)) : List (String × Value) :=
  entries.filter isPlainEntry ++ entries.filter (!isPlainEntry ·)

/-- A key stands either before the sections or among them. -/
theorem lacks_plain {entries : List (String × Value)} (h : (entries.map (·.1)).Nodup) :
    ∀ e ∈ entries.filter (!isPlainEntry ·),
      Entries.Lacks ((entries.filter isPlainEntry).map valueTree) e.1 := by
  intro e he t ht heq
  obtain ⟨x, hx, rfl⟩ := List.mem_map.1 ht
  obtain ⟨he, hsection⟩ := List.mem_filter.1 he
  obtain ⟨hx, hplain⟩ := List.mem_filter.1 hx
  obtain rfl : x = e := List.inj_on_of_nodup_map h hx he heq
  rw [hplain] at hsection
  cases hsection

variable {entries : List (String × Value)}

/-- A plain value makes a plain entry. -/
theorem Value.Inline.isPlainEntry {e : String × Value} (h : e.2.Inline) :
    isPlainEntry e = true := by
  rw [Toml.isPlainEntry, h.blocks_eq]
  rfl

/-- A section makes no plain entry. -/
theorem Value.Section.isPlainEntry {e : String × Value} (h : e.2.Section) :
    isPlainEntry e = false :=
  List.isEmpty_eq_false_iff.2 h.blocks_ne_nil

/-- Only the entries behind the plain ones have sections. -/
theorem flatMap_sections (h : ∀ e ∈ entries, e.2.Inline ∨ e.2.Section) :
    (entries.flatMap fun e => e.2.sections e.1) =
      (entries.filter (!isPlainEntry ·)).flatMap fun e => e.2.sections e.1 := by
  induction entries with
  | nil => rfl
  | cons e entries ih =>
    obtain ⟨hv, hvs⟩ := List.forall_mem_cons.1 h
    rw [List.flatMap_cons, ih hvs]
    rcases hv with hv | hv
    · rw [hv.sections_eq, List.nil_append, List.filter_cons_of_neg (by simp [hv.isPlainEntry])]
    · rw [List.filter_cons_of_pos (by simp [hv.isPlainEntry]), List.flatMap_cons]

/-- A printed document is read as its plain entries, and behind them its sections. -/
theorem Document.read_print (h : Document entries) :
    read (print entries) = some (arranged entries) := by
  have hnodup (p : String × Value → Bool) : ((entries.filter p).map (·.1)).Nodup :=
    h.nodup.sublist (List.filter_sublist.map _)
  have hplain : ((entries.filter isPlainEntry).map entryOf).foldlM Draft.add {} =
      some ⟨(entries.filter isPlainEntry).map valueTree, none⟩ :=
    Draft.foldlM_entries (fun inner => ⟨inner, none⟩) Draft.add_plain (fun _ _ => nofun)
      (hnodup isPlainEntry)
  have hshape : ∀ e ∈ entries.filter (!isPlainEntry ·), e.2.Section := by
    intro e he
    obtain ⟨he, hsection⟩ := List.mem_filter.1 he
    refine (h.shape e he).resolve_left fun hinline => ?_
    rw [hinline.isPlainEntry] at hsection
    cases hsection
  obtain ⟨ts, header, hts, hsections⟩ :=
    Draft.foldlM_sections (lacks_plain h.nodup) (hnodup _) hshape none
  rw [h.lines.read_eq, assemble, List.foldlM_append, hplain, flatMap_sections h.shape]
  simp only [Option.bind_eq_bind, Option.bind_some, hsections, finishEntries_append,
    finishEntries_valueTree, hts]
  rfl

end RenderStream.Toml
