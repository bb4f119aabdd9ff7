import RenderStream.Proofs.Governor
import RenderStream.Proofs.PassThrough

/-!
# Failures stay with their frame

Two hosts that fail at different calls leave two pipelines with the same frames behind them. Dropped
frames have been seen like all others, and the overdraw, which does differ, reaches no axis that
culling depends on. So the two stay abreast (`Abreast`), and as the reference decides what a frame
shows, a frame that both hosts present looks the same on both.
-/

namespace RenderStream

open Attempt

/-! ## Streams that cull alike -/

/-- Two streams with the same state writes, under profiles that cull alike. -/
structure Upstream.Alike (u v : Upstream) : Prop where
  culling : u.culling.Sees v.culling
  wanted : u.wanted = v.wanted

namespace Upstream.Alike

variable {u v : Upstream}

/-- A command keeps two cullings alike. -/
theorem see (h : u.Alike v) (c : Command) : (u.see c).Alike (v.see c) := by
  cases c with
  | set s value => exact ⟨h.culling.observe s value, by simp only [Upstream.see, h.wanted]⟩
  | draw | clear | barrier => exact h

/-- Commands keep two cullings alike. -/
theorem sees (h : u.Alike v) (cs : List Command) : (u.sees cs).Alike (v.sees cs) := by
  induction cs generalizing u v with
  | nil => exact h
  | cons c cs ih => exact ih (h.see c)

/-- A command is kept by both or by none. -/
theorem keeps_eq (h : u.Alike v) (ordinal : UInt32) (c : Command) :
    u.keeps ordinal c = v.keeps ordinal c := by
  cases c with
  | draw x => simp only [keeps, shows, h.culling.test, h.wanted]
  | set | clear | barrier => simp only [keeps, shows, h.wanted]

/-- The same commands are kept by both. -/
theorem keepsAll_eq (cs : List Command) : ∀ {u v : Upstream}, u.Alike v → ∀ ordinal,
    u.keepsAll ordinal cs = v.keepsAll ordinal cs := by
  induction cs with
  | nil => exact fun _ _ => rfl
  | cons c cs ih =>
    intro u v h ordinal
    rw [keepsAll, keepsAll, h.keeps_eq, ih (h.see c)]

/-- The same commands of an item are kept by both. -/
theorem keepsItem_eq (h : u.Alike v) (ordinal : UInt32) (i : Item) :
    u.keepsItem ordinal i = v.keepsItem ordinal i := by
  cases i with
  | command c => exact h.keeps_eq ordinal c
  | list call => exact keepsAll_eq call.commands h 0
  | invalidate scope => rfl

/-- The reference shows the same of both. -/
theorem keepsItems_eq (is : List Item) : ∀ {u v : Upstream}, u.Alike v → ∀ ordinal,
    u.keepsItems ordinal is = v.keepsItems ordinal is := by
  induction is with
  | nil => exact fun _ _ => rfl
  | cons i is ih =>
    intro u v h ordinal
    rw [keepsItems, keepsItems, h.keepsItem_eq, ih (h.sees i.commands)]

end Upstream.Alike

/-! ## Runs with different failures -/

/-- What is observed of a frame. -/
def Arrival.sample (a : Arrival) (overdraw : Single) : Sample :=
  ⟨a.frame.load.entities, a.frame.load.particles, a.time, overdraw⟩

/-- The same frame gives samples abreast, whatever was measured. -/
theorem Arrival.Same.sample {a b : Arrival} (h : a.Same b) (measured measured' : Single) :
    (a.sample measured).Abreast (b.sample measured') := by
  refine ⟨?_, ?_, h.time_eq⟩
  · rw [Arrival.sample, Arrival.sample, h.frame_eq]
  · rw [Arrival.sample, Arrival.sample, h.frame_eq]

namespace Pipeline

section
variable {η : Type} [Host η]

/-- A frame that does not stop the pipeline is measured once, and the profile that comes of it is in
force for the next one. -/
theorem feedAfresh_observes {p : Pipeline η} {a : Arrival} (h : (p.feedAfresh a).failure = none) :
    (p.feedAfresh a).state.culling.profile = (p.feedAfresh a).state.governor.profile ∧
      ∃ overdraw, (p.feedAfresh a).state.governor =
        p.governor.observe (a.sample overdraw) a.frame.scene := by
  have hledger : (p.attemptAfresh a.frame).state.governor = p.governor :=
    congrArg Ledger.governor (p.ledger_attemptAfresh a.frame)
  rw [feedAfresh, processAfresh] at h ⊢
  rw [← hledger]
  generalize p.attemptAfresh a.frame = r at h ⊢
  obtain ⟨q, _ | e⟩ := r
  · exact ⟨rfl, _, rfl⟩
  · rw [settle_failed] at h ⊢
    split at h
    · cases h
    · next hfatal =>
      rw [if_neg hfatal]
      exact ⟨rfl, _, rfl⟩

/-- Two pipelines that may differ in what their hosts did, and in the fog. -/
structure Abreast (p q : Pipeline η) : Prop where
  upstream : p.upstream.Alike q.upstream
  governor : p.governor.Abreast q.governor
  current : p.governor.Current
  current' : q.governor.Current

variable {p q : Pipeline η}

/-- A frame that stops neither pipeline leaves them abreast, whether it was presented, dropped, or
treated differently by the two. -/
theorem Abreast.feedAfresh (h : Abreast p q) {a b : Arrival} (hab : a.Same b)
    (hp : (p.feedAfresh a).failure = none) (hq : (q.feedAfresh b).failure = none) :
    Abreast (p.feedAfresh a).state (q.feedAfresh b).state := by
  obtain ⟨elapsed, frame⟩ := a
  obtain ⟨elapsed', frame'⟩ := b
  obtain rfl : frame = frame' := hab.frame_eq
  obtain ⟨hprofile, measured, hover⟩ := feedAfresh_observes hp
  obtain ⟨hprofile', measured', hover'⟩ := feedAfresh_observes hq
  have hmoved := h.governor.observe (hab.sample measured measured') frame.scene
  have hcurrent := h.current.observe (Arrival.sample ⟨elapsed, frame⟩ measured) frame.scene
  have hcurrent' := h.current'.observe (Arrival.sample ⟨elapsed', frame⟩ measured') frame.scene
  rw [← hover, ← hover'] at hmoved
  rw [← hover] at hcurrent
  rw [← hover'] at hcurrent'
  have hseen := h.upstream.sees frame.commands
  have hupstream := upstream_processAfresh p elapsed frame
  have hupstream' := upstream_processAfresh q elapsed' frame
  refine ⟨?_, hmoved, hcurrent, hcurrent'⟩
  rw [Pipeline.feedAfresh, Pipeline.feedAfresh, hupstream, hupstream']
  refine ⟨⟨hseen.culling.tolerances, hseen.culling.view, ?_, ?_⟩, hseen.wanted⟩
  · exact (congrArg Profile.keepRatio hprofile).trans
      ((hmoved.keepRatio_eq hcurrent hcurrent').trans (congrArg Profile.keepRatio hprofile').symm)
  · exact (congrArg Profile.cullDistance hprofile).trans
      ((hmoved.cullDistance_eq hcurrent hcurrent').trans
        (congrArg Profile.cullDistance hprofile').symm)

/-- Two runs over the same frames that never stop stay abreast. -/
theorem Abreast.runAfresh {as bs : List Arrival} (hab : List.Forall₂ Arrival.Same as bs) :
    ∀ {p q : Pipeline η}, Abreast p q → (∀ o ∈ p.outcomesAfresh as, o.result = .ok ()) →
      (∀ o ∈ q.outcomesAfresh bs, o.result = .ok ()) →
      Abreast (p.runAfresh as) (q.runAfresh bs) := by
  induction hab with
  | nil => exact fun h _ _ => h
  | cons ha _ ih =>
    intro p q h hp hq
    rw [outcomesAfresh] at hp hq
    obtain ⟨hpa, hprest⟩ := List.forall_mem_cons.1 hp
    obtain ⟨hqb, hqrest⟩ := List.forall_mem_cons.1 hq
    exact ih (h.feedAfresh ha (result_ok.1 hpa) (result_ok.1 hqb)) hprest hqrest

end

/-- Pipelines that start alike but for the script of the host are abreast. -/
theorem abreast_start (s : Settings) (script script' : Script) :
    Abreast (start s script) (start s script') where
  upstream := ⟨⟨rfl, rfl, rfl, rfl⟩, rfl⟩
  governor := ⟨rfl, rfl, fun _ _ => rfl⟩
  current := Governor.current_start s.quality s.overrides
  current' := Governor.current_start s.quality s.overrides

/-- Under two scripts the streams cull alike, as long as neither pipeline was stopped. -/
theorem upstream_alike {s : Settings} {script script' : Script} {as bs : List Arrival}
    (hab : List.Forall₂ Arrival.Same as bs)
    (hok : ∀ o ∈ (start s script).outcomes as, o.result = .ok ())
    (hok' : ∀ o ∈ (start s script').outcomes bs, o.result = .ok ())
    (hrs : NoCollision ((start s script).requests as))
    (hrs' : NoCollision ((start s script').requests bs)) :
    ((start s script).run as).upstream.Alike ((start s script').run bs).upstream := by
  rw [outcomes_run s _ as hrs] at hok
  rw [outcomes_run s _ bs hrs'] at hok'
  have hstep := (inStep_run s ({ script } : Scripted) as [] hrs (by simp [Upstream.requests])).1
  have hstep' := (inStep_run s ({ script := script' } : Scripted) bs [] hrs'
    (by simp [Upstream.requests])).1
  rw [hstep.upstream_eq, hstep'.upstream_eq]
  exact (Abreast.runAfresh hab (abreast_start s script script') hok hok').upstream

end Pipeline

/-! ## A frame on two screens -/

/-- Two frames that look the same: the same commands, each under values that are the same in every
slot written by then. -/
inductive LooksAlike : List (Command × SlotMap SlotValue) → List (Command × SlotMap SlotValue) →
    Showing → Prop where
  | nil : LooksAlike [] [] []
  | cons {c : Command} {m m' : SlotMap SlotValue} {written : SlotMap (Option SlotValue)}
      {as bs : List (Command × SlotMap SlotValue)} {shown : Showing}
      (slots : ∀ s v, written.get s = some v → (m.get s).Same (m'.get s))
      (rest : LooksAlike as bs shown) :
      LooksAlike ((c, m) :: as) ((c, m') :: bs) ((c, written) :: shown)

/-- What agrees with the same reference looks the same. -/
theorem looksAlike_of_agrees {as : List (Command × SlotMap SlotValue)} {shown : Showing}
    (has : List.Forall₂ Agrees as shown) :
    ∀ {bs : List (Command × SlotMap SlotValue)}, List.Forall₂ Agrees bs shown →
      LooksAlike as bs shown := by
  induction has with
  | nil =>
    intro bs hbs
    cases hbs
    exact .nil
  | @cons a x _ _ ha _ ih =>
    intro bs hbs
    obtain _ | @⟨b, _, _, _, hb, hbs⟩ := hbs
    obtain ⟨c, m⟩ := a
    obtain ⟨d, m'⟩ := b
    obtain ⟨e, written⟩ := x
    obtain ⟨hc, hm⟩ := ha
    obtain ⟨hd, hm'⟩ := hb
    obtain rfl : c = e := hc
    obtain rfl : d = c := hd
    exact .cons (fun s v hv => (hm s v hv).join (hm' s v hv)) (ih hbs)

namespace Pipeline

/-- Failures of the host do not reach later frames. Two hosts that fail at different calls, and
leave their slots with different values, present the same frames in the same way, as long as neither
pipeline was stopped. -/
theorem presentedFrames_isolated (s : Settings) (script script' : Script)
    (before before' : List Arrival) (a a' : Arrival) {y y' : Shown}
    (hbefore : List.Forall₂ Arrival.Same before before') (hframe : a.frame = a'.frame)
    (hok : ∀ o ∈ (start s script).outcomes before, o.result = .ok ())
    (hok' : ∀ o ∈ (start s script').outcomes before', o.result = .ok ())
    (hrs : NoCollision ((start s script).requests (before ++ [a])))
    (hrs' : NoCollision ((start s script').requests (before' ++ [a'])))
    (hy : (((start s script).run before).feed a).state.presentedFrames =
      ((start s script).run before).presentedFrames ++ [y])
    (hy' : (((start s script').run before').feed a').state.presentedFrames =
      ((start s script').run before').presentedFrames ++ [y']) :
    LooksAlike y.observed y'.observed
      (((s.upstream.sees (Arrival.commands before)).under
        ((start s script).run before).culling.profile).keepsItems 0 a.frame.items) := by
  have hfaithful := faithful_of_presented hrs hy
  have hfaithful' := faithful_of_presented hrs' hy'
  have hrun := hrs.mono fun r hr => requests_prefix before [a] _ hr
  have hrun' := hrs'.mono fun r hr => requests_prefix before' [a'] _ hr
  have halike := upstream_alike hbefore hok hok' hrun hrun'
  rw [upstream_run s _ before hrun, upstream_run s _ before' hrun'] at halike
  have hobserved := hfaithful'.observed
  rw [← hframe, ← Upstream.Alike.keepsItems_eq a.frame.items halike 0] at hobserved
  exact looksAlike_of_agrees hfaithful.observed hobserved

/-- The last frame that was presented, if there was one. -/
def lastPresented (p : Pipeline Scripted) : Shown :=
  p.presentedFrames.getLast?.getD ⟨.const (.flag false), []⟩

set_option maxRecDepth 10000 in
/-- A frame behind one that only the second host presents. -/
theorem presentedFrames_isolated_demo :
    let p := (start Demo.settings (Demo.refusing 2)).run [Demo.arrival 1 .white]
    let q := (start Demo.settings {}).run [Demo.arrival 2 .white]
    p.presentedFrames.length = 0 ∧ q.presentedFrames.length = 1 ∧
      LooksAlike (lastPresented (p.feed (Demo.arrival 1 .black)).state).observed
        (lastPresented (q.feed (Demo.arrival 2 .black)).state).observed
        (((Demo.settings.upstream.sees (Arrival.commands [Demo.arrival 1 .white])).under
          p.culling.profile).keepsItems 0 (Demo.frame .black).items) :=
  ⟨by decide +kernel, by decide +kernel,
    presentedFrames_isolated Demo.settings (Demo.refusing 2) {} [Demo.arrival 1 .white]
      [Demo.arrival 2 .white] (Demo.arrival 1 .black) (Demo.arrival 2 .black)
      (.cons (Demo.same_arrival 1 2 .white) .nil) rfl (by decide +kernel) (by decide +kernel)
      (by decide +kernel) (by decide +kernel) (by decide +kernel) (by decide +kernel)⟩

end Pipeline

end RenderStream
