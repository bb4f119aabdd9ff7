import RenderStream.Proofs.Culling
import RenderStream.Proofs.RecencyList
import RenderStream.Proofs.Upstream

/-!
# Requests for compiled lists

A compiled list is asked for under a key: the fingerprint of the call combined with the fingerprint
of the culling state. `NoCollision` says of a set of requests that their digests tell them apart,
and that calls with one fingerprint carry the same commands, tags included. Under it every entry of
a cache that was filled by such requests is the list that compiling anew would give
(`Pipeline.compiled_eq`).
-/

namespace RenderStream

/-! ## Requests -/

/-- A request for a compiled list. -/
structure Request where
  call : ListCall
  /-- Culling when it is called, counts apart. -/
  culling : Culling

namespace Request

/-- The key under which the list is asked for. -/
def key (r : Request) : Fingerprint := r.call.fingerprint.combine r.culling.fingerprint

/-- The list that compiling gives. -/
def list (r : Request) : CompiledList := .compile r.culling r.call.commands

end Request

/-- The request that an item makes, if it is a list. -/
def Upstream.request (u : Upstream) : Item → List Request
  | .list call => [⟨call, u.culling⟩]
  | .command _ => []
  | .invalidate _ => []

/-- The requests that items make, in the order of the items. -/
def Upstream.requests (u : Upstream) : List Item → List Request
  | [] => []
  | i :: is => u.request i ++ (u.sees i.commands).requests is

/-- The requests of items are those of the first ones, and then those of the others behind them. -/
theorem Upstream.requests_append (is js : List Item) :
    ∀ u : Upstream, u.requests (is ++ js) =
      u.requests is ++ (u.sees (is.flatMap Item.commands)).requests js := by
  induction is with
  | nil => exact fun u => rfl
  | cons i is ih =>
    intro u
    rw [List.cons_append, requests, requests, ih, List.flatMap_cons, sees_append, List.append_assoc]

/-- Fingerprints tell requests apart: calls with one fingerprint carry the same commands, and
neither the digests of culling states nor those of pairs of fingerprints collide. -/
structure NoCollision (rs : List Request) : Prop where
  calls : ∀ a ∈ rs, ∀ b ∈ rs, a.call.fingerprint = b.call.fingerprint →
    a.call.commands = b.call.commands
  states : ∀ a ∈ rs, ∀ b ∈ rs, a.culling.fingerprint = b.culling.fingerprint →
    a.culling.bytes = b.culling.bytes
  keys : ∀ a ∈ rs, ∀ b ∈ rs, a.key = b.key →
    a.call.fingerprint.bytes ++ a.culling.fingerprint.bytes =
      b.call.fingerprint.bytes ++ b.culling.fingerprint.bytes

instance (rs : List Request) : Decidable (NoCollision rs) :=
  -- What has to be equal is compared first, so that few digests are taken.
  decidable_of_iff
    ((∀ a ∈ rs, ∀ b ∈ rs, ¬a.call.commands = b.call.commands →
        ¬a.call.fingerprint = b.call.fingerprint) ∧
      (∀ a ∈ rs, ∀ b ∈ rs, ¬a.culling.bytes = b.culling.bytes →
        ¬a.culling.fingerprint = b.culling.fingerprint) ∧
      ∀ a ∈ rs, ∀ b ∈ rs, ¬a.call.fingerprint.bytes ++ a.culling.fingerprint.bytes =
        b.call.fingerprint.bytes ++ b.culling.fingerprint.bytes → ¬a.key = b.key)
    ⟨fun ⟨hcalls, hstates, hkeys⟩ =>
      ⟨fun a ha b hb => Decidable.not_imp_not.1 (hcalls a ha b hb),
        fun a ha b hb => Decidable.not_imp_not.1 (hstates a ha b hb),
        fun a ha b hb => Decidable.not_imp_not.1 (hkeys a ha b hb)⟩,
    fun h =>
      ⟨fun a ha b hb => Decidable.not_imp_not.2 (h.calls a ha b hb),
        fun a ha b hb => Decidable.not_imp_not.2 (h.states a ha b hb),
        fun a ha b hb => Decidable.not_imp_not.2 (h.keys a ha b hb)⟩⟩

variable {rs : List Request}

/-- Of requests that are told apart, fewer are told apart. -/
theorem NoCollision.mono {rs' : List Request} (h : NoCollision rs) (hrs : ∀ r ∈ rs', r ∈ rs) :
    NoCollision rs' :=
  ⟨fun a ha b hb => h.calls a (hrs a ha) b (hrs b hb),
    fun a ha b hb => h.states a (hrs a ha) b (hrs b hb),
    fun a ha b hb => h.keys a (hrs a ha) b (hrs b hb)⟩

/-- Requests under one key get the same list, as long as the three digests that their keys are made
of tell them apart: those of the calls, of the culling states, and of the pairs of both. -/
theorem Request.list_eq {a b : Request} (ht : a.culling.tolerances = b.culling.tolerances)
    (hcalls : a.call.fingerprint = b.call.fingerprint → a.call.commands = b.call.commands)
    (hstates : a.culling.fingerprint = b.culling.fingerprint → a.culling.bytes = b.culling.bytes)
    (hkeys : a.call.fingerprint.bytes ++ a.culling.fingerprint.bytes =
      b.call.fingerprint.bytes ++ b.culling.fingerprint.bytes) : a.list = b.list := by
  obtain ⟨hcall, hculling⟩ := Fingerprint.bytes_prefixFree _ _ _ _ hkeys
  have hsees :=
    Culling.sees_of_bytes ht (hstates (Fingerprint.bytes_prefixFree.injective hculling))
  rw [list, list, hcalls hcall, CompiledList.compile_congr hsees]

/-- Requests that are told apart and have the same key ask for the same list, under the same
tolerances. -/
theorem NoCollision.list_eq (h : NoCollision rs) {a b : Request} (ha : a ∈ rs) (hb : b ∈ rs)
    (ht : a.culling.tolerances = b.culling.tolerances) (hkey : a.key = b.key) :
    a.list = b.list :=
  Request.list_eq ht (h.calls a ha b hb) (h.states a ha b hb) (h.keys a ha b hb hkey)

/-! ## The cache -/

namespace ListCache

/-- Every entry answers the request of the key it is held under, with the tolerances `t`. -/
def Answers (c : ListCache) (rs : List Request) (t : Settings.Culling) : Prop :=
  ∀ x ∈ c.held.items, ∃ r ∈ rs, r.culling.tolerances = t ∧ r.key = x.1 ∧ r.list = x.2.list

variable {c : ListCache} {t : Settings.Culling}

/-- A cache with no entries leaves nothing to answer for. -/
theorem answers_empty (n : Nat) : (empty n).Answers rs t := nofun

/-- An emptied cache leaves nothing to answer for. -/
theorem Answers.invalidate (c : ListCache) : c.invalidate.Answers rs t := nofun

/-- Counts are not entries. -/
theorem Answers.takeFrame (h : c.Answers rs t) : c.takeFrame.1.Answers rs t := h

/-- A lookup finds what answers a request of its key, and leaves the other entries as they are. -/
theorem Answers.lookup (h : c.Answers rs t) (key : Fingerprint) :
    (c.lookup key).1.Answers rs t ∧
      ∀ l, (c.lookup key).2 = some l →
        ∃ r ∈ rs, r.culling.tolerances = t ∧ r.key = key ∧ r.list = l := by
  rcases c.lookup_cases key with ⟨e, hx, hresult, hheld⟩ | ⟨-, hresult, hheld⟩
  · obtain ⟨r, hr, ht, hk, hl⟩ := h _ hx
    rw [hresult, Answers, hheld]
    refine ⟨fun x hx => ?_, fun l hl' => ⟨r, hr, ht, hk, hl.trans (Option.some.inj hl')⟩⟩
    rcases RecencyList.eq_or_mem_of_mem_use hx with rfl | hx
    · exact ⟨r, hr, ht, hk, hl⟩
    · exact h x hx
  · rw [hresult, Answers, hheld]
    exact ⟨h, nofun⟩

/-- An insertion of what answers a request leaves a cache of answers. -/
theorem Answers.insert (h : c.Answers rs t) {r : Request} (hr : r ∈ rs)
    (ht : r.culling.tolerances = t) : (c.insert r.key r.list).1.Answers rs t := by
  rw [Answers, held_insert]
  intro x hx
  rcases RecencyList.eq_or_mem_of_mem_use hx with rfl | hx
  · exact ⟨r, hr, ht, rfl, rfl⟩
  · exact h x hx

end ListCache

/-- As long as the cache answers requests that fingerprints tell apart, asking it and compiling anew
give the same list. -/
theorem Pipeline.compiled_eq {η : Type} (p : Pipeline η) (call : ListCall) (hrs : NoCollision rs)
    (hlists : p.lists.Answers rs p.culling.tolerances) (hr : ⟨call, p.culling.uncounted⟩ ∈ rs) :
    ∃ lists : ListCache, lists.Answers rs p.culling.tolerances ∧
      p.compiled call = ({ p with lists }, .compile p.culling call.commands) := by
  have hsees : p.culling.uncounted.Sees p.culling := ⟨rfl, rfl, rfl, rfl⟩
  have hlist : Request.list ⟨call, p.culling.uncounted⟩ = .compile p.culling call.commands :=
    CompiledList.compile_congr hsees call.commands
  have hkey : Request.key ⟨call, p.culling.uncounted⟩ =
      call.fingerprint.combine p.culling.fingerprint := rfl
  obtain ⟨hlookup, hhit⟩ := hlists.lookup (call.fingerprint.combine p.culling.fingerprint)
  simp only [compiled]
  rcases hl : p.lists.lookup (call.fingerprint.combine p.culling.fingerprint) with ⟨lists, _ | l⟩
    <;> rw [hl] at hlookup hhit
  · refine ⟨(lists.insert (Request.key ⟨call, p.culling.uncounted⟩) (Request.list _)).1,
      ListCache.Answers.insert hlookup hr rfl, ?_⟩
    rw [hlist, hkey]
  · obtain ⟨r, hmem, ht, hk, hlist'⟩ := hhit l rfl
    refine ⟨lists, hlookup, ?_⟩
    rw [← hlist', hrs.list_eq hmem hr ht (hk.trans hkey.symm), hlist]

end RenderStream
