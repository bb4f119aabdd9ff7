import RenderStream.Proofs.Flow
import RenderStream.Proofs.PassThrough
import RenderStream.Proofs.Tally

/-!
# The accounts of a frame

Every operation on the way of commands does some `Work`: it puts commands on their way, makes
rulings, and asks for writes of which it leaves some out. `Pipeline.Does` says that the counts of
the pipeline show that work, and that what the host took since is what was put on its way, batch by
batch. What the work has to do with the commands is said apart: `Relays` for commands that were
culled beforehand, `Settles` for commands of the stream. Both add up (`each_charges`), so the
accounts of a frame are closed by its present (`Idle.attemptAfresh_closes`).
-/

namespace RenderStream

open Attempt

/-! ## Batches that leave the buffer -/

namespace Batch

/-- The host took the batches `bs`, and they were counted. -/
structure Ships (b : Batch Scripted) (bs : List (List Command)) (b' : Batch Scripted) : Prop where
  taken : b'.host.taken = b.host.taken ++ bs
  screen : b'.host.screen.taken = b.host.screen.taken ++ bs.flatten
  batches : b'.counts.batches = b.counts.batches + .ofNat bs.length
  commands : b'.counts.commands = b.counts.commands + .ofNat bs.flatten.length

/-- Any number of batches left. -/
def Shipped (b b' : Batch Scripted) : Prop := ∃ bs, b.Ships bs b'

/-- The commands `cs` came in, and any number of batches left. -/
structure Takes (b : Batch Scripted) (cs : List Command) (b' : Batch Scripted) : Prop where
  carries : ∀ {x ds}, b.Carries x ds → b'.Carries x (ds ++ cs)
  shipped : b.Shipped b'

variable {b₀ b b' : Batch Scripted}

/-- Where nothing happens, no batch leaves. -/
theorem Ships.refl (b : Batch Scripted) : b.Ships [] b where
  taken := (List.append_nil _).symm
  screen := (List.append_nil _).symm
  batches := (UInt32.add_zero _).symm
  commands := (UInt32.add_zero _).symm

/-- Batches leave one after the other. -/
theorem Ships.trans {bs cs : List (List Command)} (h : b₀.Ships bs b) (h' : b.Ships cs b') :
    b₀.Ships (bs ++ cs) b' where
  taken := by rw [h'.taken, h.taken, List.append_assoc]
  screen := by rw [h'.screen, h.screen, List.flatten_append, List.append_assoc]
  batches := by
    rw [h'.batches, h.batches, List.length_append, UInt32.ofNat_add, UInt32.add_assoc]
  commands := by
    rw [h'.commands, h.commands, List.flatten_append, List.length_append, UInt32.ofNat_add,
      UInt32.add_assoc]

/-- Batches that leave twice leave. -/
theorem Shipped.trans (h : b₀.Shipped b) (h' : b.Shipped b') : b₀.Shipped b' := by
  obtain ⟨bs, hb⟩ := h
  obtain ⟨cs, hb'⟩ := h'
  exact ⟨bs ++ cs, hb.trans hb'⟩

/-- Where nothing happens, no command comes in. -/
theorem Takes.refl (b : Batch Scripted) : b.Takes [] b :=
  ⟨fun h => by rwa [List.append_nil], [], .refl b⟩

/-- Commands come in one after the other. -/
theorem Takes.trans {cs ds : List Command} (h : b₀.Takes cs b) (h' : b.Takes ds b') :
    b₀.Takes (cs ++ ds) b' := by
  refine ⟨fun hx => ?_, h.shipped.trans h'.shipped⟩
  rw [← List.append_assoc]
  exact h'.carries (h.carries hx)

/-- A flush that succeeds takes the buffer as one batch, if there is something in it. -/
theorem flush_shipped (h : b₀.Shipped b) : b.flush.Ends b₀.Shipped fun _ => True := by
  rw [flush]
  split
  · exact h
  · have htaken := Scripted.submit_taken b.host b.buffer.toList
    have hscreen := Scripted.submit_ends b.host b.buffer.toList
    dsimp only
    split
    · trivial
    · next hr =>
      have hflat : [b.buffer.toList].flatten = b.buffer.toList := List.flatten_singleton
      refine h.trans ⟨[b.buffer.toList], htaken.of_ok hr, ?_, rfl, ?_⟩
      · rw [hflat]
        exact congrArg Screen.taken (hscreen.of_ok hr)
      · rw [hflat, Array.length_toList]

/-- A forced flush lets a batch leave. -/
theorem force_shipped (h : b₀.Shipped b) : b.force.Ends b₀.Shipped fun _ => True := by
  obtain ⟨bs, hb⟩ := h
  exact flush_shipped (b := { b with counts := _ })
    ⟨bs, hb.taken, hb.screen, hb.batches, hb.commands⟩

/-- The flush before a command lets a batch leave. -/
theorem opening_shipped (c : Command) (h : b₀.Shipped b) :
    (b.opening c).Ends b₀.Shipped fun _ => True := by
  rw [opening]
  split
  · exact force_shipped h
  · exact h

/-- Making room lets a batch leave. -/
theorem makeRoom_shipped (h : b₀.Shipped b) : b.makeRoom.Ends b₀.Shipped fun _ => True := by
  obtain ⟨bs, hb⟩ := h
  rw [makeRoom]
  split
  · exact flush_shipped (b := { b with counts := _ })
      ⟨bs, hb.taken, hb.screen, hb.batches, hb.commands⟩
  · exact ⟨bs, hb⟩

/-- The flush behind a barrier lets a batch leave. -/
theorem append_shipped (c : Command) (h : b₀.Shipped b) :
    (b.append c).Ends b₀.Shipped fun _ => True := by
  obtain ⟨bs, hb⟩ := h
  have hpushed : b₀.Shipped { b with buffer := b.buffer.push c } :=
    ⟨bs, hb.taken, hb.screen, hb.batches, hb.commands⟩
  rw [append]
  split
  · exact force_shipped hpushed
  · exact hpushed

/-- A command that is accepted comes in. -/
theorem accept_takes (b : Batch Scripted) (c : Command) :
    (b.accept c).Ends (b.Takes [c]) fun _ => True := by
  have hshipped : (b.accept c).Ends b.Shipped fun _ => True :=
    ((opening_shipped c ⟨[], .refl b⟩).andThen fun _ h => makeRoom_shipped h).andThen
      fun _ h => append_shipped c h
  have hcarries : ∀ {x ds}, b.Carries x ds →
      (b.accept c).Ends (·.Carries x (ds ++ [c])) (·.Within x) := accept_ends c
  generalize b.accept c = r at hshipped hcarries ⊢
  obtain ⟨b', _ | e⟩ := r
  · exact ⟨fun h => hcarries h, hshipped⟩
  · trivial

/-- A present that succeeds shows all that came in since the screen was empty, and it left in the
batches that were counted. -/
theorem present_ships {x : Screen} {cs : List Command} (hx : b₀.Carries x [])
    (hempty : b₀.host.screen.taken = []) (h : b₀.Takes cs b) :
    b.present.Ends
      (fun b' => b'.host.screen.frames = x.frames ++ [⟨x.slots, cs⟩] ∧
        ∃ bs, bs.flatten = cs ∧ b'.host.taken = b₀.host.taken ++ bs ∧
          b'.counts.batches = b₀.counts.batches + .ofNat bs.length ∧
          b'.counts.commands = b₀.counts.commands + .ofNat cs.length)
      fun _ => True := by
  have hcarries : b.Carries x cs := h.carries hx
  have hframes : b.present.Ends
      (fun b' => b'.host.screen.frames = x.frames ++ [⟨x.slots, cs⟩]) fun _ => True :=
    (present_ends hcarries).imp fun _ h => congrArg Screen.frames h.2
  have hbatches : b.present.Ends
      (fun b' => ∃ bs, bs.flatten = cs ∧ b'.host.taken = b₀.host.taken ++ bs ∧
        b'.counts.batches = b₀.counts.batches + .ofNat bs.length ∧
        b'.counts.commands = b₀.counts.commands + .ofNat cs.length) fun _ => True := by
    have hflush : b.flush.Ends (fun b' => (b'.Carries x cs ∧ b'.buffer = #[]) ∧ b₀.Shipped b')
        fun _ => True :=
      ((flush_ends hcarries).and (flush_shipped h.shipped)).imp fun _ h => h
    refine hflush.andThen ?_
    rintro b' ⟨⟨⟨taken, hscreen, hall⟩, hbuffer⟩, bs, hb⟩
    have hflat : bs.flatten = cs := by
      have htaken := hb.screen
      rw [hempty, List.nil_append, hscreen] at htaken
      rw [← htaken, ← hall, hbuffer]
      exact (List.append_nil _).symm
    rw [ends_map]
    have hpresent : ∀ h' : Scripted, h'.taken = b'.host.taken →
        ∃ bs, bs.flatten = cs ∧ h'.taken = b₀.host.taken ++ bs ∧
          b'.counts.batches = b₀.counts.batches + .ofNat bs.length ∧
          b'.counts.commands = b₀.counts.commands + .ofNat cs.length := fun h' hh =>
      ⟨bs, hflat, hh.trans hb.taken, hb.batches, hflat ▸ hb.commands⟩
    exact .of_state (hpresent _ (Scripted.present_taken b'.host))
  exact (hframes.and hbatches).imp fun _ h => h

end Batch

/-! ## Writes that are counted -/

namespace SlotCache

/-- Every write is asked for, and it is left out when there is no command for it. -/
theorem set_counts (c : SlotCache) (s : Slot) (v : SlotValue) :
    (c.set s v).1.counts.requests = c.counts.requests + .ofNat 1 ∧
      (c.set s v).1.counts.suppressed =
        c.counts.suppressed + .ofNat (1 - (c.set s v).2.toList.length) := by
  rw [set]
  split
  · exact ⟨rfl, rfl⟩
  · exact ⟨rfl, (UInt32.add_zero _).symm⟩

/-- Setting one slot of the host anew is no request for a write. -/
theorem restoreNext_counts (r : SlotCache × List Command) (s : Slot) :
    (restoreNext r s).1.counts.requests = r.1.counts.requests ∧
      (restoreNext r s).1.counts.suppressed = r.1.counts.suppressed := by
  simp only [restoreNext, restoreSlot]
  split
  · exact ⟨rfl, rfl⟩
  · split <;> exact ⟨rfl, rfl⟩

/-- What is restored was not asked for again. -/
theorem restore_counts (c : SlotCache) :
    c.restore.1.counts.requests = c.counts.requests ∧
      c.restore.1.counts.suppressed = c.counts.suppressed := by
  have hall : ∀ (ss : List Slot) (r : SlotCache × List Command),
      (ss.foldl restoreNext r).1.counts.requests = r.1.counts.requests ∧
        (ss.foldl restoreNext r).1.counts.suppressed = r.1.counts.suppressed := by
    intro ss
    induction ss with
    | nil => exact fun r => ⟨rfl, rfl⟩
    | cons s ss ih =>
      intro r
      obtain ⟨hrequests, hsuppressed⟩ := restoreNext_counts r s
      rw [List.foldl_cons, (ih _).1, (ih _).2, hrequests, hsuppressed]
      exact ⟨rfl, rfl⟩
  rw [restore_eq_foldl]
  exact hall _ _

end SlotCache

/-! ## Work -/

/-- What is done on the way of commands. -/
structure Work where
  /-- The commands put on their way. -/
  sent : List Command := []
  rulings : List Ruling := []
  /-- The writes asked for. -/
  asked : Nat := 0
  /-- The writes left out. -/
  saved : Nat := 0

namespace Work

/-- One work behind another one. -/
def andThen (w v : Work) : Work :=
  ⟨w.sent ++ v.sent, w.rulings ++ v.rulings, w.asked + v.asked, w.saved + v.saved⟩

/-- Every write is sent or left out. -/
structure Writes (cs : List Command) (w : Work) : Prop where
  asked : w.asked = Command.sets cs
  sent : Command.sets w.sent + w.saved = w.asked

/-- Every write of two works is sent or left out. -/
theorem Writes.andThen {cs ds : List Command} {w v : Work} (h : w.Writes cs) (h' : v.Writes ds) :
    (w.andThen v).Writes (cs ++ ds) where
  asked := by rw [Work.andThen, Command.sets_append, h.asked, h'.asked]
  sent := by
    have hw := h.sent
    have hv := h'.sent
    simp only [Work.andThen, Command.sets_append]
    omega

/-- The work of commands that were culled beforehand: all draws are sent. -/
structure Relays (cs : List Command) (w : Work) : Prop where
  writes : w.Writes cs
  rulings : w.rulings = []
  draws : (Command.draws w.sent).length = (Command.draws cs).length

/-- The work of commands of the stream: all draws are ruled on, and those that are kept are sent. -/
structure Settles (cs : List Command) (w : Work) : Prop where
  writes : w.Writes cs
  rules : Rules cs w.rulings
  draws : (Command.draws w.sent).length = w.rulings.countP Ruling.kept

/-- All draws of two works are sent. -/
theorem Relays.andThen {cs ds : List Command} {w v : Work} (h : w.Relays cs) (h' : v.Relays ds) :
    (w.andThen v).Relays (cs ++ ds) where
  writes := h.writes.andThen h'.writes
  rulings := by rw [Work.andThen, h.rulings, h'.rulings, List.append_nil]
  draws := by
    rw [Work.andThen, Command.draws_append, Command.draws_append, List.length_append,
      List.length_append, h.draws, h'.draws]

/-- All draws of two works are ruled on. -/
theorem Settles.andThen {cs ds : List Command} {w v : Work} (h : w.Settles cs)
    (h' : v.Settles ds) : (w.andThen v).Settles (cs ++ ds) where
  writes := h.writes.andThen h'.writes
  rules := h.rules.append h'.rules
  draws := by
    rw [Work.andThen, Command.draws_append, List.length_append, h.draws, h'.draws,
      List.countP_append]

/-- A command that is no draw is settled when it is relayed. -/
theorem Relays.settles {cs : List Command} {w : Work} (h : w.Relays cs)
    (hcs : Command.draws cs = []) : w.Settles cs where
  writes := h.writes
  rules := h.rulings ▸ rules_nil hcs
  draws := by rw [h.draws, hcs, h.rulings]; rfl

/-- Commands are settled when they are culled beforehand and what is left of them is relayed. -/
theorem Relays.settles_of_sifts {cs sent : List Command} {w : Work} {rs : List Ruling}
    {before after : CullCounts} (h : w.Relays sent) (hsifts : Sifts cs sent rs before after) :
    { w with rulings := rs }.Settles cs where
  writes := ⟨h.writes.asked.trans hsifts.sets, h.writes.sent⟩
  rules := hsifts.rules
  draws := h.draws.trans hsifts.draws

end Work

/-! ## Work of the pipeline -/

namespace Pipeline

/-- Between `p` and `q` the work `w` was done: it is on its way, and it was counted. -/
structure Does (p : Pipeline Scripted) (w : Work) (q : Pipeline Scripted) : Prop where
  batch : p.batch.Takes w.sent q.batch
  culling : q.culling.counts = p.culling.counts.add (.tally w.rulings)
  requests : q.slots.counts.requests = p.slots.counts.requests + .ofNat w.asked
  suppressed : q.slots.counts.suppressed = p.slots.counts.suppressed + .ofNat w.saved

/-- An attempt that comes through did work of the sort `S` for the commands `cs`. -/
def Charges (S : List Command → Work → Prop) (p : Pipeline Scripted)
    (r : Attempt HostError (Pipeline Scripted)) (cs : List Command) : Prop :=
  r.Ends (fun q => ∃ w, S cs w ∧ Does p w q) fun _ => True

variable {p q r : Pipeline Scripted}

/-- Where nothing happens, no work is done. -/
theorem does_nothing (p : Pipeline Scripted) : Does p {} p where
  batch := .refl p.batch
  culling := (CullCounts.add_zero _).symm
  requests := (UInt32.add_zero _).symm
  suppressed := (UInt32.add_zero _).symm

/-- Works are done one after the other. -/
theorem Does.andThen {w v : Work} (h : Does p w q) (h' : Does q v r) :
    Does p (w.andThen v) r where
  batch := h.batch.trans h'.batch
  culling := by
    rw [h'.culling, h.culling, CullCounts.add_assoc, Work.andThen, CullCounts.tally_append]
  requests := by
    rw [h'.requests, h.requests, UInt32.add_assoc, Work.andThen, UInt32.ofNat_add]
  suppressed := by
    rw [h'.suppressed, h.suppressed, UInt32.add_assoc, Work.andThen, UInt32.ofNat_add]

/-- A run does what its steps do, for a sort of work that adds up. -/
theorem each_charges {α : Type} {S : List Command → Work → Prop}
    {step : Pipeline Scripted → α → Attempt HostError (Pipeline Scripted)}
    (note : Pipeline Scripted → α → Pipeline Scripted) (commands : α → List Command)
    (hnil : S [] {}) (happend : ∀ {cs ds w v}, S cs w → S ds v → S (cs ++ ds) (w.andThen v))
    (hstep : ∀ p a, Charges S p (step p a) (commands a)) (as : List α) :
    ∀ p, Charges S p (each step note p as) (as.flatMap commands) := by
  induction as with
  | nil => exact fun p => ⟨{}, hnil, does_nothing p⟩
  | cons a as ih =>
    intro p
    have hfirst := hstep p a
    rw [each_cons, List.flatMap_cons]
    refine Ends.andEach hfirst ?_ fun _ _ => trivial
    rintro q ⟨w, hw, hq⟩
    refine (ih q).imp ?_
    rintro r ⟨v, hv, hr⟩
    exact ⟨w.andThen v, happend hw hv, hq.andThen hr⟩

/-- Sending a command does the work of sending it. -/
theorem send_does (p : Pipeline Scripted) (c : Command) :
    (p.send c).Ends (Does p { sent := [c] }) fun _ => True := by
  rw [send, ends_map]
  refine (p.batch.accept_takes c).imp fun b hb => ?_
  exact ⟨hb, (CullCounts.add_zero _).symm, (UInt32.add_zero _).symm, (UInt32.add_zero _).symm⟩

/-- A command that is no state write is relayed as it is. -/
theorem send_charges (p : Pipeline Scripted) {c : Command} (hc : c.isSet = false) :
    Charges Work.Relays p (p.send c) [c] := by
  refine (p.send_does c).imp fun q hq => ⟨_, ⟨⟨?_, ?_⟩, rfl, rfl⟩, hq⟩
  · rw [Command.sets, List.countP_singleton, hc]
    rfl
  · rw [Command.sets, List.countP_singleton, hc]
    rfl

/-- A state write that comes through is sent or left out. -/
theorem write_charges (p : Pipeline Scripted) (s : Slot) (v : SlotValue) :
    Charges Work.Relays p (p.write s v) [.set s v] := by
  obtain ⟨hrequests, hsuppressed⟩ := p.slots.set_counts s v
  have hwrote : Does p { asked := 1, saved := 1 - (p.slots.set s v).2.toList.length }
      (p.wrote s v) :=
    ⟨.refl p.batch, (CullCounts.add_zero _).symm, hrequests, hsuppressed⟩
  rw [write_eq]
  cases hd : (p.slots.set s v).2 with
  | none =>
    rw [hd] at hwrote
    exact ⟨_, ⟨⟨rfl, rfl⟩, rfl, rfl⟩, hwrote⟩
  | some d =>
    have hmem : d ∈ (p.slots.set s v).2.toList := by
      rw [hd]
      exact List.mem_singleton_self d
    obtain rfl : d = .set s v := SlotCache.eq_of_mem_set hmem
    rw [hd] at hwrote
    refine ((p.wrote s v).send_does (.set s v)).imp fun q hq => ?_
    exact ⟨_, ⟨⟨rfl, rfl⟩, rfl, rfl⟩, hwrote.andThen hq⟩

/-- A command of a compiled list that comes through is relayed. -/
theorem replayCommand_charges (p : Pipeline Scripted) (c : Command) :
    Charges Work.Relays p (p.replayCommand c) [c] := by
  cases c with
  | set s v => exact p.write_charges s v
  | draw | clear | barrier => exact p.send_charges rfl

/-- A compiled list that comes through is relayed. -/
theorem replay_relays (p : Pipeline Scripted) (l : CompiledList) :
    Charges Work.Relays (p.tallied l) (p.replay l) l.commands := by
  have heach := each_charges note (fun c => [c]) (S := Work.Relays) ⟨⟨rfl, rfl⟩, rfl, rfl⟩
    Work.Relays.andThen replayCommand_charges l.commands (p.tallied l)
  rwa [List.flatMap_singleton'] at heach

/-- A draw is ruled on, and what is kept of it is sent. -/
theorem draw_charges (p : Pipeline Scripted) (x : Primitive) :
    Charges Work.Settles p (p.draw x) [.draw x] := by
  have hcounts : (p.culling.judge x p.ordinal).1.counts =
      p.culling.counts.add (.tally [p.culling.ruling x p.ordinal]) := by
    rw [CullCounts.tally_singleton, ← CullCounts.add_record, CullCounts.add_zero]
    rfl
  have hrules := p.culling.rules_draw x p.ordinal
  rw [draw_eq]
  split
  · next hkeep =>
    have hkept : (p.culling.ruling x p.ordinal).kept = true := decide_eq_true hkeep
    refine (send_does _ (.draw x)).imp fun q hq => ?_
    refine ⟨{ sent := [.draw x], rulings := [p.culling.ruling x p.ordinal] },
      ⟨⟨rfl, rfl⟩, hrules, ?_⟩, hq.batch, ?_, hq.requests, hq.suppressed⟩
    · rw [List.countP_singleton, if_pos hkept]
      rfl
    · exact hq.culling.trans ((CullCounts.add_zero _).trans hcounts)
  · next hcut =>
    have hkept : ¬(p.culling.ruling x p.ordinal).kept = true := fun h => hcut (of_decide_eq_true h)
    refine ⟨{ rulings := [p.culling.ruling x p.ordinal] }, ⟨⟨rfl, rfl⟩, hrules, ?_⟩,
      .refl p.batch, hcounts, (UInt32.add_zero _).symm, (UInt32.add_zero _).symm⟩
    rw [List.countP_singleton, if_neg hkept]
    rfl

/-- A command that comes through is settled. -/
theorem execute_charges (p : Pipeline Scripted) (c : Command) :
    Charges Work.Settles p (p.execute c) [c] := by
  have hsettles : ∀ {r}, Command.draws [c] = [] → Charges Work.Relays p r [c] →
      Charges Work.Settles p r [c] := fun hc h =>
    h.imp fun _ ⟨w, hw, hq⟩ => ⟨w, hw.settles hc, hq⟩
  cases c with
  | set s v => exact hsettles rfl (p.write_charges s v)
  | draw x => exact p.draw_charges x
  | clear | barrier => exact hsettles rfl (p.send_charges rfl)

/-- A display list is ruled on when it is compiled, as a whole, and the rest of it is relayed. -/
theorem callAfresh_charges (p : Pipeline Scripted) (call : ListCall) :
    Charges Work.Settles p (p.callAfresh call) call.commands := by
  obtain ⟨rs, hsifts⟩ := CompiledList.compile_sifts p.culling call.commands
  refine (p.replay_relays _).imp ?_
  rintro q ⟨w, hw, hbatch, hculling, hrequests, hsuppressed⟩
  refine ⟨{ w with rulings := rs }, hw.settles_of_sifts hsifts, hbatch, ?_, hrequests, hsuppressed⟩
  rw [hculling, hw.rulings]
  have htallied : (p.tallied (.compile p.culling call.commands)).culling.counts =
      p.culling.counts.add (CompiledList.compile p.culling call.commands).counts := rfl
  have hcompiled := hsifts.counts
  rw [CullCounts.zero_add] at hcompiled
  rw [htallied, hcompiled]
  exact CullCounts.add_zero _

/-- An item that comes through is settled. -/
theorem itemAfresh_charges (p : Pipeline Scripted) (i : Item) :
    Charges Work.Settles p (p.itemAfresh i) i.commands := by
  cases i with
  | command c => exact p.execute_charges c
  | list call => exact p.callAfresh_charges call
  | invalidate scope =>
    exact ⟨{}, ⟨⟨rfl, rfl⟩, rules_nil rfl, rfl⟩, .refl p.batch, (CullCounts.add_zero _).symm,
      (UInt32.add_zero _).symm, (UInt32.add_zero _).symm⟩

/-! ## Whole frames -/

/-- The writes that a frame begins with, to bring back what the host may have lost. -/
def owed (p : Pipeline Scripted) : List Command := if p.mustRestore then p.slots.restore.2 else []

/-- What is owed is sent, and counts as nothing. -/
theorem restore_does (p : Pipeline Scripted) :
    p.restore.Ends (Does p { sent := p.owed }) fun _ => True := by
  rw [restore_eq, owed]
  split
  · have hsend : ∀ (p : Pipeline Scripted) c, Charges (fun cs w => w = { sent := cs }) p (p.send c)
        [c] := fun p c => (p.send_does c).imp fun q hq => ⟨_, rfl, hq⟩
    have heach := each_charges (fun p _ => p) (fun c => [c])
      (S := fun cs w => w = { sent := cs }) rfl (fun h h' => by rw [h, h']; rfl) hsend
      p.slots.restore.2 p.restored
    rw [List.flatMap_singleton'] at heach
    obtain ⟨hrequests, hsuppressed⟩ := p.slots.restore_counts
    refine heach.imp ?_
    rintro q ⟨w, rfl, hq⟩
    exact ⟨hq.batch, hq.culling, hq.requests.trans (congrArg (· + _) hrequests),
      hq.suppressed.trans (congrArg (· + _) hsuppressed)⟩
  · exact does_nothing p

/-- The items of a frame that comes through are settled, behind the writes that were owed. -/
theorem itemsAfresh_does (p : Pipeline Scripted) (is : List Item) :
    (p.itemsAfresh is).Ends (fun q => ∃ w : Work, w.Settles (is.flatMap Item.commands) ∧
      Does p { w with sent := p.owed ++ w.sent } q) fun _ => True := by
  have hitems : ∀ q, Charges Work.Settles q (each itemAfresh noteItem q is)
      (is.flatMap Item.commands) :=
    each_charges noteItem Item.commands ⟨⟨rfl, rfl⟩, rules_nil rfl, rfl⟩ Work.Settles.andThen
      itemAfresh_charges is
  refine Ends.andEach p.restore_does ?_ fun _ _ => trivial
  intro q hq
  refine (hitems q).imp ?_
  rintro r ⟨w, hw, hr⟩
  have hboth := hq.andThen hr
  rw [Work.andThen, List.nil_append, Nat.zero_add, Nat.zero_add] at hboth
  exact ⟨w, hw, hboth⟩

/-- The accounts of a frame that came through: behind what was owed the work `w` was done, all of it
was presented, and the host had taken it in the batches `bs`. -/
structure Closes (p : Pipeline Scripted) (frame : Frame) (w : Work) (bs : List (List Command))
    (q : Pipeline Scripted) : Prop where
  settles : w.Settles frame.commands
  frames : q.presentedFrames =
    p.presentedFrames ++ [⟨p.batch.host.screen.slots, p.owed ++ w.sent⟩]
  culling : q.culling.counts = p.culling.counts.add (.tally w.rulings)
  requests : q.slots.counts.requests = p.slots.counts.requests + .ofNat w.asked
  suppressed : q.slots.counts.suppressed = p.slots.counts.suppressed + .ofNat w.saved
  flatten : bs.flatten = p.owed ++ w.sent
  taken : q.batch.host.taken = p.batch.host.taken ++ bs
  batches : q.batch.counts.batches = p.batch.counts.batches + .ofNat bs.length
  commands : q.batch.counts.commands = p.batch.counts.commands + .ofNat (p.owed ++ w.sent).length

/-- The present closes the accounts of a frame. -/
theorem Idle.attemptAfresh_closes (h : Idle p) (frame : Frame) :
    (p.attemptAfresh frame).Ends (fun q => ∃ w bs, Closes p frame w bs q) fun _ => True := by
  refine (itemsAfresh_does { p with ordinal := 0 } frame.items).andThen ?_
  rintro q ⟨w, hw, hbatch, hculling, hrequests, hsuppressed⟩
  rw [ends_map]
  refine (Batch.present_ships h.carries h.taken hbatch).imp ?_
  rintro b ⟨hframes, bs, hflatten, htaken, hbatches, hcommands⟩
  exact ⟨w, bs, hw, hframes, hculling, hrequests, hsuppressed, hflatten, htaken, hbatches,
    hcommands⟩

end Pipeline

end RenderStream
