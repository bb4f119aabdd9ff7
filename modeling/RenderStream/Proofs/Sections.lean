import RenderStream.Proofs.Assembly
import RenderStream.Proofs.Exact
import RenderStream.Settings.Text

/-!
# Settings that stand in a document

A value of each type of field stands on a line and is decoded as what it was (`Codec.Keeps`), but
for a word of 64 bits only in the half that a signed integer has, and for a float only when it is
finite. A section then stands as a table of lines (`Settings.Stands`), and settings whose numbers
can all be held (`Settings.Writable`) as a document (`Settings.Sections.document`). They are decoded
from whatever document has the same values under the same keys (`Settings.Sections.decode`): not the
order of its entries counts, nor what else it holds.
-/

namespace RenderStream

open Toml (Value)

namespace Codec

/-! ## Fields -/

section
variable {α β : Type} {c : Codec α} {a : α}

/-- A value that stands on a line and is decoded as what it was. -/
structure Keeps (c : Codec α) (a : α) : Prop where
  inline : (c.encode a).Inline
  decode_encode : c.decode (c.encode a) = some a

theorem keeps_flag (on : Bool) : flag.Keeps on := ⟨trivial, rfl⟩

theorem keeps_text (s : String) : text.Keeps s := ⟨trivial, rfl⟩

/-- A natural number below the bound of its field and of a document's integers is kept. -/
theorem keeps_nat {bound n : Nat} (hn : n < bound) (hn' : n < 2 ^ 63) : (nat bound).Keeps n := by
  constructor
  · change Toml.isInteger n = true
    simp only [Toml.isInteger, Bool.and_eq_true, decide_eq_true_eq]
    omega
  · have hbound : (0 ≤ (n : Int) && (n : Int) < bound) = true := by
      simp only [Bool.and_eq_true, decide_eq_true_eq]
      omega
    exact if_pos hbound

/-- A codec keeps what it is mapped from when the map can be undone there. -/
theorem Keeps.map {back : β → α} {f : α → β} {b : β} (h : c.Keeps (back b))
    (hf : f (back b) = b) : (c.map back f).Keeps b := by
  refine ⟨h.inline, ?_⟩
  change (c.decode (c.encode (back b))).map f = some b
  rw [h.decode_encode, Option.map_some, hf]

/-- Every word of 8 bits is kept. -/
theorem keeps_word8 (n : UInt8) : word8.Keeps n :=
  (keeps_nat n.toNat_lt (by have := n.toNat_lt; omega)).map UInt8.ofNat_toNat

/-- Every word of 32 bits is kept. -/
theorem keeps_word32 (n : UInt32) : word32.Keeps n :=
  (keeps_nat n.toNat_lt (by have := n.toNat_lt; omega)).map UInt32.ofNat_toNat

/-- A word of 64 bits is kept when a document can hold it. -/
theorem keeps_word64 {n : UInt64} (h : n.toNat < 2 ^ 63) : word64.Keeps n :=
  (keeps_nat n.toNat_lt h).map UInt64.ofNat_toNat

/-- A finite float is kept: widening is exact, so narrowing gives it back. -/
theorem keeps_single {x : Single} (hx : x.isFinite = true) : single.Keeps x :=
  ⟨(Binary.widen_exact hx).1, congrArg some (Binary.narrow_widen hx)⟩

/-- A choice with a name of its own is kept. -/
theorem keeps_choice {name : α → String} {all : List α} (hname : ∀ b, name b = name a → b = a)
    (ha : a ∈ all) : (choice name all).Keeps a := by
  refine ⟨trivial, ?_⟩
  change all.find? (name · == name a) = some a
  have hfound : (all.find? (name · == name a)).isSome := List.find?_isSome.2 ⟨a, ha, by simp⟩
  obtain ⟨b, hb⟩ := Option.isSome_iff_exists.1 hfound
  rw [hb, hname b (by simpa using List.find?_some hb)]

end

end Codec

namespace Settings

theorem keeps_host (k : HostKind) : HostKind.codec.Keeps k :=
  Codec.keeps_choice (by cases k <;> rintro ⟨⟩ <;> decide) (by cases k <;> decide)

theorem keeps_shadows (s : Shadows) : Shadows.codec.Keeps s :=
  Codec.keeps_choice (by cases s <;> rintro ⟨⟩ <;> decide) (by cases s <;> decide)

theorem keeps_fog (g : Fog) : Fog.codec.Keeps g :=
  Codec.keeps_choice (by cases g <;> rintro ⟨⟩ <;> decide) (by cases g <;> decide)

end Settings

/-! ## Sections -/

namespace Fields

section
variable {α : Type} {c : Codec α} {a default : α} {o : Option α} {position : Nat} {key : String}
  {entries : List (String × Value)}

/-- An optional field that was written or left out is read as it was. -/
theorem optional_keyed (h : entries.lookup key = o.map c.encode)
    (hc : ∀ a ∈ o, c.decode (c.encode a) = some a) :
    (keyed entries).optional c position key = some o := by
  rw [optional, get?, h]
  cases o with
  | none => rfl
  | some a =>
    rw [Option.map_some]
    change (c.decode (c.encode a)).map some = _
    rw [hc a rfl]
    rfl

/-- A field that was written is read as it was. -/
theorem read_keyed (h : entries.lookup key = some (c.encode a))
    (hc : c.decode (c.encode a) = some a) :
    (keyed entries).read c default position key = some a := by
  rw [read, optional_keyed (o := some a) h (by rintro _ ⟨⟩; exact hc)]
  rfl

end

end Fields

/-! ## Records -/

section
variable {entries : List (String × Value)} {fs : List (Option (String × Value))}
  {keys : List String} {key k : String}

/-- Fields that may be left out stand in the order of their keys. -/
theorem sublist_of_fields (h : List.Forall₂ (fun f k => ∀ e ∈ f, e.1 = k) fs keys) :
    ((fs.filterMap id).map (·.1)).Sublist keys := by
  induction h with
  | nil => exact .slnil
  | @cons f k fs keys hf _ ih =>
    cases f with
    | none => exact ih.cons k
    | some e =>
      rw [List.filterMap_cons_some (f := id) rfl, List.map_cons, hf e rfl]
      exact ih.cons_cons k

/-- A field is under its own key or left out. -/
theorem key_of_field {α : Type} {o : Option α} {f : α → Value} :
    ∀ e ∈ o.map fun a => (k, f a), e.1 = k := by
  intro e he
  obtain ⟨a, -, rfl⟩ := Option.map_eq_some_iff.1 he
  rfl

/-- A written field is found under its key and hides no other one. -/
theorem lookup_field_some {v : Value} : ((some (k, v) :: fs).filterMap id).lookup key =
    if key = k then some v else (fs.filterMap id).lookup key := by
  rw [List.filterMap_cons_some (f := id) rfl, List.lookup_cons]
  by_cases hkey : key = k
  · rw [if_pos hkey, hkey, beq_self_eq_true]
  · rw [if_neg hkey, beq_eq_false_iff_ne.2 hkey]

/-- A field that may be left out is found under its key, if there is one. -/
theorem lookup_field {α : Type} {o : Option α} {f : α → Value} :
    (((o.map fun a => (k, f a)) :: fs).filterMap id).lookup key =
      if key = k then (o.map f).or ((fs.filterMap id).lookup key)
      else (fs.filterMap id).lookup key := by
  cases o with
  | none => exact (ite_self _).symm
  | some a => exact lookup_field_some

end

namespace Settings

open Codec

/-- A record that is written as lines, and decoded as what it was. -/
structure Stands {σ : Type} (c : Codec σ) (s : σ) : Prop where
  record : ∃ entries, c.encode s = .table entries ∧ Toml.Record entries
  decode_encode : c.decode (c.encode s) = some s

/-- Threads and queues stand when their words are kept. -/
theorem Threading.stands {t : Threading} (hworkers : word64.Keeps t.workerCount)
    (hgraphics : word64.Keeps t.graphicsDepth) (haudio : word64.Keeps t.audioDepth)
    (hstall : word64.Keeps t.stallTime) : Stands Threading.codec t := by
  have hflag (on : Bool) := keeps_flag on
  have hlimit := keeps_word32 t.stallLimit
  constructor
  · refine ⟨_, rfl, ⟨Toml.keyed_of_sublist ["enable_async_graphics", "enable_async_audio",
      "enable_worker_threads", "worker_thread_count", "graphics_queue_depth", "audio_queue_depth",
      "enable_parallel_rsp", "backpressure_stall_ms", "stall_limit"] (.refl _) (by decide)
      (by decide), ?_⟩⟩
    simp [(keeps_flag _).inline, hworkers.inline, hgraphics.inline, haudio.inline, hstall.inline,
      hlimit.inline]
  · -- Opened by hand: left to unification, the codec would be run on fields that are not known.
    unfold Threading.codec
    dsimp only
    refine Option.bind_eq_some_iff.2 ⟨_, rfl, ?_⟩
    rw [Fields.read_keyed List.lookup_cons_self (hflag t.asyncGraphics).decode_encode,
      Fields.read_keyed (by simp [List.lookup_cons]) (hflag t.asyncAudio).decode_encode,
      Fields.read_keyed (by simp [List.lookup_cons]) (hflag t.useWorkers).decode_encode,
      Fields.read_keyed (by simp [List.lookup_cons]) hworkers.decode_encode,
      Fields.read_keyed (by simp [List.lookup_cons]) hgraphics.decode_encode,
      Fields.read_keyed (by simp [List.lookup_cons]) haudio.decode_encode,
      Fields.read_keyed (by simp [List.lookup_cons]) (hflag t.parallelLists).decode_encode,
      Fields.read_keyed (by simp [List.lookup_cons]) hstall.decode_encode,
      Fields.read_keyed (by simp [List.lookup_cons]) hlimit.decode_encode]
    rfl

/-- Batches, display lists and failures stand when their words are kept. -/
theorem Batching.stands {b : Batching} (hbatch : word64.Keeps b.batchCapacity)
    (hlist : word64.Keeps b.listCapacity) : Stands Batching.codec b := by
  have hlimit := keeps_word32 b.failureLimit
  constructor
  · refine ⟨_, rfl, ⟨Toml.keyed_of_sublist ["batch_capacity", "display_list_capacity",
      "max_consecutive_submit_failures"] (.refl _) (by decide) (by decide), ?_⟩⟩
    simp [hbatch.inline, hlist.inline, hlimit.inline]
  · unfold Batching.codec
    dsimp only
    refine Option.bind_eq_some_iff.2 ⟨_, rfl, ?_⟩
    rw [Fields.read_keyed List.lookup_cons_self hbatch.decode_encode,
      Fields.read_keyed (by simp [List.lookup_cons]) hlist.decode_encode,
      Fields.read_keyed (by simp [List.lookup_cons]) hlimit.decode_encode]
    rfl

/-- Tolerances stand when their floats are kept. -/
theorem Culling.stands {c : Culling} (harea : single.Keeps c.areaEpsilon)
    (hscissor : single.Keeps c.scissorTolerance) : Stands Culling.codec c := by
  constructor
  · refine ⟨_, rfl, ⟨Toml.keyed_of_sublist ["degenerate_area_epsilon", "scissor_tolerance"]
      (.refl _) (by decide) (by decide), ?_⟩⟩
    simp [harea.inline, hscissor.inline]
  · unfold Culling.codec
    dsimp only
    refine Option.bind_eq_some_iff.2 ⟨_, rfl, ?_⟩
    rw [Fields.read_keyed List.lookup_cons_self harea.decode_encode,
      Fields.read_keyed (by simp [List.lookup_cons]) hscissor.decode_encode]
    rfl

/-- Targets and budgets stand when their floats and their word are kept. -/
theorem Quality.stands {q : Quality} (htarget : single.Keeps q.targetTime)
    (hdrop : single.Keeps q.dropPressure) (hraise : single.Keeps q.raisePressure)
    (hoverdraw : single.Keeps q.overdrawBudget) (hhistory : word64.Keeps q.historyLength) :
    Stands Quality.codec q := by
  constructor
  · refine ⟨_, rfl, ⟨Toml.keyed_of_sublist ["target_frame_ms", "drop_pressure", "raise_pressure",
      "raise_window", "entity_budget", "particle_budget", "overdraw_budget", "history_len"]
      (.refl _) (by decide) (by decide), ?_⟩⟩
    simp [htarget.inline, hdrop.inline, hraise.inline, hoverdraw.inline, hhistory.inline,
      (keeps_word32 _).inline]
  · unfold Quality.codec
    dsimp only
    refine Option.bind_eq_some_iff.2 ⟨_, rfl, ?_⟩
    rw [Fields.read_keyed List.lookup_cons_self htarget.decode_encode,
      Fields.read_keyed (by simp [List.lookup_cons]) hdrop.decode_encode,
      Fields.read_keyed (by simp [List.lookup_cons]) hraise.decode_encode,
      Fields.read_keyed (by simp [List.lookup_cons]) (keeps_word32 q.raiseWindow).decode_encode,
      Fields.read_keyed (by simp [List.lookup_cons]) (keeps_word32 q.entityBudget).decode_encode,
      Fields.read_keyed (by simp [List.lookup_cons]) (keeps_word32 q.particleBudget).decode_encode,
      Fields.read_keyed (by simp [List.lookup_cons]) hoverdraw.decode_encode,
      Fields.read_keyed (by simp [List.lookup_cons]) hhistory.decode_encode]
    rfl

/-- The size of the image stands. -/
theorem Viewport.stands (v : Viewport) : Stands Viewport.codec v := by
  constructor
  · refine ⟨_, rfl, ⟨Toml.keyed_of_sublist ["width", "height"] (.refl _) (by decide)
      (by decide), ?_⟩⟩
    simp [(keeps_word32 _).inline]
  · unfold Viewport.codec
    dsimp only
    refine Option.bind_eq_some_iff.2 ⟨_, rfl, ?_⟩
    rw [Fields.read_keyed List.lookup_cons_self (keeps_word32 v.width).decode_encode,
      Fields.read_keyed (by simp [List.lookup_cons]) (keeps_word32 v.height).decode_encode]
    rfl

/-- The fields of an override are found under their keys, those that are written. -/
theorem SceneOverride.encode_eq (o : SceneOverride) : ∃ entries,
    SceneOverride.codec.encode o = .table entries ∧ Toml.Record entries ∧
      entries.lookup "scene" = some (text.encode o.scene) ∧
      entries.lookup "particles" = o.particles.map word8.encode ∧
      entries.lookup "shadows" = o.shadows.map Shadows.codec.encode ∧
      entries.lookup "fog" = o.fog.map Fog.codec.encode ∧
      entries.lookup "detail" = o.detail.map word8.encode := by
  refine ⟨_, rfl, ⟨Toml.keyed_of_sublist ["scene", "particles", "shadows", "fog", "detail"]
    (sublist_of_fields ?_) (by decide) (by decide), ?_⟩, ?_⟩
  · exact .cons (by rintro _ ⟨⟩; rfl)
      (.cons key_of_field (.cons key_of_field (.cons key_of_field (.cons key_of_field .nil))))
  · intro e he
    obtain ⟨f, hf, he⟩ := List.mem_filterMap.1 he
    obtain rfl : f = some e := he
    simp only [List.mem_cons, List.not_mem_nil, or_false, Option.some.injEq,
      eq_comm (a := some e), Option.map_eq_some_iff] at hf
    rcases hf with rfl | ⟨n, -, rfl⟩ | ⟨s, -, rfl⟩ | ⟨g, -, rfl⟩ | ⟨n, -, rfl⟩
    · exact (keeps_text _).inline
    · exact (keeps_word8 n).inline
    · exact (keeps_shadows s).inline
    · exact (keeps_fog g).inline
    · exact (keeps_word8 n).inline
  · simp only [lookup_field_some, lookup_field, List.filterMap_nil, List.lookup_nil,
      String.reduceEq, if_true, if_false, Option.or_none, and_self]

/-- Every override stands, whichever levels it leaves out. -/
theorem SceneOverride.stands (o : SceneOverride) : Stands SceneOverride.codec o := by
  obtain ⟨entries, hentries, hrecord, hscene, hparticles, hshadows, hfog, hdetail⟩ := o.encode_eq
  refine ⟨⟨entries, hentries, hrecord⟩, ?_⟩
  rw [hentries]
  unfold SceneOverride.codec
  dsimp only
  refine Option.bind_eq_some_iff.2 ⟨_, rfl, Option.bind_eq_some_iff.2 ⟨o.scene, ?_, ?_⟩⟩
  · exact Option.bind_eq_some_iff.2 ⟨_, hscene, rfl⟩
  · rw [Fields.optional_keyed hparticles fun n _ => (keeps_word8 n).decode_encode,
      Fields.optional_keyed hshadows fun s _ => (keeps_shadows s).decode_encode,
      Fields.optional_keyed hfog fun g _ => (keeps_fog g).decode_encode,
      Fields.optional_keyed hdetail fun n _ => (keeps_word8 n).decode_encode]
    rfl

/-! ## Documents -/

/-- Overrides are written as plain records. -/
theorem exists_records (os : List SceneOverride) : ∃ records : List (List (String × Value)),
    os.map SceneOverride.codec.encode = records.map .table ∧
      ∀ entries ∈ records, Toml.Record entries := by
  induction os with
  | nil => exact ⟨[], rfl, List.forall_mem_nil _⟩
  | cons o os ih =>
    obtain ⟨records, hrecords, hall⟩ := ih
    obtain ⟨entries, hentries, hrecord⟩ := o.stands.record
    refine ⟨entries :: records, ?_, List.forall_mem_cons.2 ⟨hrecord, hall⟩⟩
    rw [List.map_cons, hentries, hrecords, List.map_cons]

/-- No overrides are written on one line, and others as sections of their own. -/
theorem overrides_shape (os : List SceneOverride) :
    (overridesCodec.encode os).Inline ∨ (overridesCodec.encode os).Section := by
  obtain ⟨records, hrecords, hall⟩ := exists_records os
  change (Value.array (os.map _)).Inline ∨ (Value.array (os.map _)).Section
  rw [hrecords]
  by_cases hne : records = []
  · rw [hne]
    exact .inl trivial
  · exact .inr (.tables hne hall)

/-- Overrides are decoded as what they were, in their order. -/
theorem overrides_decode_encode (os : List SceneOverride) :
    overridesCodec.decode (overridesCodec.encode os) = some os := by
  change (os.map SceneOverride.codec.encode).mapM SceneOverride.codec.decode = some os
  induction os with
  | nil => rfl
  | cons o os ih =>
    rw [List.map_cons, List.mapM_cons, ih, o.stands.decode_encode]
    rfl

/-- A record that stands is written as a section. -/
theorem Stands.shape {σ : Type} {c : Codec σ} {s : σ} (h : Stands c s) :
    (c.encode s).Inline ∨ (c.encode s).Section := by
  obtain ⟨entries, hentries, hrecord⟩ := h.record
  rw [hentries]
  exact .inr (.table hrecord)

/-- The fields of 64 bits. -/
def words (s : Settings) : List UInt64 :=
  [s.threading.workerCount, s.threading.graphicsDepth, s.threading.audioDepth,
    s.threading.stallTime, s.batching.batchCapacity, s.batching.listCapacity,
    s.quality.historyLength]

/-- Settings all numbers of which a document can hold. -/
structure Writable (s : Settings) : Prop where
  words : ∀ n ∈ s.words, n.toNat < 2 ^ 63
  floats : ∀ x ∈ s.floats, x.isFinite = true

variable {s : Settings}

/-- Every section of writable settings stands. -/
structure Sections (s : Settings) : Prop where
  threading : Stands Threading.codec s.threading
  batching : Stands Batching.codec s.batching
  culling : Stands Culling.codec s.culling
  quality : Stands Quality.codec s.quality

/-- The sections of writable settings stand. -/
theorem Writable.sections (h : s.Writable) : s.Sections := by
  have hwords : ∀ n ∈ s.words, word64.Keeps n := fun n hn => keeps_word64 (h.words n hn)
  have hfloats : ∀ x ∈ s.floats, single.Keeps x := fun x hx => keeps_single (h.floats x hx)
  simp only [Settings.words, Settings.floats, List.forall_mem_cons] at hwords hfloats
  obtain ⟨hworkers, hgraphics, haudio, hstall, hbatch, hlist, hhistory, -⟩ := hwords
  obtain ⟨harea, hscissor, htarget, hdrop, hraise, hoverdraw, -⟩ := hfloats
  exact ⟨Threading.stands hworkers hgraphics haudio hstall, Batching.stands hbatch hlist,
    Culling.stands harea hscissor, Quality.stands htarget hdrop hraise hoverdraw hhistory⟩

/-- Settings whose sections stand are written as a document. -/
theorem Sections.document (h : s.Sections) :
    ∃ entries, codec.encode s = .table entries ∧ Toml.Document entries := by
  refine ⟨_, rfl, Toml.keyed_of_sublist ["backend", "threading", "batching", "culling", "quality",
    "viewport", "scene_overrides"] (.refl _) (by decide) (by decide), ?_⟩
  have hhost := (keeps_host s.host).inline
  simp [h.threading.shape, h.batching.shape, h.culling.shape, h.quality.shape,
    s.viewport.stands.shape, overrides_shape, hhost]

/-- Settings are decoded from all documents in which the fields are found. -/
theorem Sections.decode (h : s.Sections) {entries entries' : List (String × Value)}
    (hentries : codec.encode s = .table entries)
    (hlookup : ∀ key v, entries.lookup key = some v → entries'.lookup key = some v) :
    codec.decode (.table entries') = some s := by
  obtain rfl := Value.table.inj hentries
  unfold codec
  dsimp only
  refine Option.bind_eq_some_iff.2 ⟨_, rfl, ?_⟩
  rw [Fields.read_keyed (hlookup _ _ List.lookup_cons_self) (keeps_host s.host).decode_encode,
    Fields.read_keyed (hlookup _ _ (by simp [List.lookup_cons])) h.threading.decode_encode,
    Fields.read_keyed (hlookup _ _ (by simp [List.lookup_cons])) h.batching.decode_encode,
    Fields.read_keyed (hlookup _ _ (by simp [List.lookup_cons])) h.culling.decode_encode,
    Fields.read_keyed (hlookup _ _ (by simp [List.lookup_cons])) h.quality.decode_encode,
    Fields.read_keyed (hlookup _ _ (by simp [List.lookup_cons])) s.viewport.stands.decode_encode,
    Fields.read_keyed (hlookup _ _ (by simp [List.lookup_cons]))
      (overrides_decode_encode s.overrides)]
  rfl

end Settings

end RenderStream
