import RenderStream.Proofs.Requests
import RenderStream.Proofs.Run

/-!
# What a key stands for

The key of a request is made of three digests: that of the commands, that of the culling state, and
that of the pair of both. None of the three encodings says one thing for two, so a key that stands
for two requests whose lists differ takes a collision of the digest (`Request.list_eq_of_key`).
`Request.Separated` asks only for what a key is made of: the byte strings of these two requests.
-/

namespace RenderStream

/-- The digest does not confuse two byte strings. -/
def Fingerprint.Separates (x y : List UInt8) : Prop := ofBytes x = ofBytes y → x = y

namespace Request

/-- The digest confuses none of the byte strings that the keys of two requests without a tag are
made of. -/
structure Separated (a b : Request) : Prop where
  commands : Fingerprint.Separates (Encoding.commands a.call.commands)
    (Encoding.commands b.call.commands)
  states : Fingerprint.Separates a.culling.bytes b.culling.bytes
  pairs : Fingerprint.Separates (a.call.fingerprint.bytes ++ a.culling.fingerprint.bytes)
    (b.call.fingerprint.bytes ++ b.culling.fingerprint.bytes)

variable {a b : Request}

/-- Without a tag the fingerprint of a call is the digest of its commands. -/
theorem fingerprint_of_untagged (ha : a.call.tag = none) :
    a.call.fingerprint = .ofBytes (Encoding.commands a.call.commands) := by
  rw [ListCall.fingerprint, ha]
  rfl

/-- One key, one list. -/
theorem list_eq_of_key (ha : a.call.tag = none) (hb : b.call.tag = none)
    (hca : ∀ c ∈ a.call.commands, c.Countable) (hcb : ∀ c ∈ b.call.commands, c.Countable)
    (ht : a.culling.tolerances = b.culling.tolerances) (hab : a.Separated b)
    (hkey : a.key = b.key) : a.list = b.list := by
  refine list_eq ht (fun hcalls => ?_) hab.states (hab.pairs hkey)
  rw [fingerprint_of_untagged ha, fingerprint_of_untagged hb] at hcalls
  exact Encoding.commands_inj hca hcb (hab.commands hcalls)

/-- Requests that agree in the call and in the bytes of the culling state have one key, and there is
nothing to confuse. -/
theorem key_eq_of_bytes (hcall : a.call = b.call) (hbytes : a.culling.bytes = b.culling.bytes) :
    a.Separated b ∧ a.key = b.key := by
  have hstates : a.culling.fingerprint = b.culling.fingerprint := by
    rw [Culling.fingerprint, hbytes, Culling.fingerprint]
  refine ⟨⟨fun _ => ?_, fun _ => hbytes, fun _ => ?_⟩, ?_⟩
  · rw [hcall]
  · rw [hcall, hstates]
  · rw [key, hcall, hstates, key]

end Request

/-- The bytes under a fingerprint say one thing only. Those of a sequence of commands tell the
commands, and none of a command's own is the beginning of another command's; those of a culling
state tell all that a verdict depends on, tolerances apart. So without collisions a key without a
tag belongs to one compiled list. -/
theorem encodings_unambiguous :
    (∀ cs ds : List Command, (∀ c ∈ cs, c.Countable) → (∀ d ∈ ds, d.Countable) →
      Encoding.commands cs = Encoding.commands ds → cs = ds) ∧
    (∀ c d : Command, c.Countable → d.Countable → c ≠ d →
      ¬Encoding.command c <+: Encoding.command d) ∧
    (∀ c d : Culling, c.bytes = d.bytes → c.view = d.view ∧
      c.profile.keepRatio = d.profile.keepRatio ∧
      c.profile.cullDistance = d.profile.cullDistance) ∧
    (∀ a b : Request, a.call.tag = none → b.call.tag = none →
      (∀ c ∈ a.call.commands, c.Countable) → (∀ c ∈ b.call.commands, c.Countable) →
      a.culling.tolerances = b.culling.tolerances → a.Separated b →
      a.key = b.key → a.list = b.list) := by
  refine ⟨fun _ _ => Encoding.commands_inj, ?_, fun _ _ => Culling.eq_of_bytes,
    fun _ _ => Request.list_eq_of_key⟩
  rintro c d hc hd hcd ⟨rest, hrest⟩
  rw [← List.append_nil (Encoding.command d)] at hrest
  exact hcd (Encoding.command_prefixFree hc hd hrest).1

namespace Demo

/-- A call of the demo list without its tag. -/
def request : Request := ⟨{ list with tag := none }, { tolerances := {} }⟩

/-- The call with counts and under a profile that culls alike. -/
def laterRequest : Request :=
  { request with
    culling :=
      { request.culling with
        counts := { tested := 9 }, profile := .ofLevels { shadows := .baked } 4 } }

end Demo

/-- Two writes that differ in the form of the value alone, and two requests that differ in what
neither the key nor the list depends on. -/
theorem encodings_unambiguous_demo :
    Demo.request.call.commands = Demo.laterRequest.call.commands ∧
    ¬Encoding.command (.set .texture0 (.bits 1)) <+: Encoding.command (.set .texture0 (.handle 1)) ∧
    Demo.request.culling.view = Demo.laterRequest.culling.view ∧
    Demo.request.list = Demo.laterRequest.list := by
  have hbytes : Demo.request.culling.bytes = Demo.laterRequest.culling.bytes := by decide +kernel
  have hcall : Demo.request.call = Demo.laterRequest.call := rfl
  obtain ⟨hseparated, hkey⟩ := Request.key_eq_of_bytes hcall hbytes
  exact ⟨encodings_unambiguous.1 _ _ (by decide) (by decide) rfl,
    encodings_unambiguous.2.1 _ _ (by decide) (by decide) (by decide),
    (encodings_unambiguous.2.2.1 _ _ hbytes).1,
    encodings_unambiguous.2.2.2 _ _ rfl rfl (by decide) (by decide) rfl hseparated hkey⟩

end RenderStream
