import Mathlib.Logic.Relation
import RenderStream.Proofs.Progress
import RenderStream.Proofs.Workers

/-!
# Courses

A course is all that a producer and its stages do, from the first call to the end of the last
thread: the producer makes its calls one after the other, then leaves the graphics stage, awaits its
end and hears what it has still said, then leaves the audio stage and awaits its end. Between any
two moves of the producer the threads may move, so one list of calls has many courses
(`Course.Step`).

`Course.Inv` holds all along: it says of every moment what `Handoff.Stands` says, with the calls
made so far. Two things follow for every course. It comes to its end: a course that is not done can
go on (`Inv.exists_step`), and no course goes on for ever (`Inv.work_step`). And the end does not
depend on how the threads were scheduled, so it is that of a producer without threads.
-/

namespace RenderStream

def Errand.call? : Errand → Option Call
  | .call k => some k
  | .idle | .joinGraphics | .joinAudio | .done => none

/-- A producer that has calls to make. -/
structure Course (γ α : Type) where
  handoff : Handoff γ α
  todo : List Call
  errand : Errand := .idle
  /-- The calls that are over, with what they returned. -/
  answers : List (Call × Except PacingError Unit) := []

namespace Course

variable {γ α : Type}

/-- The calls that have begun. -/
def begun (c : Course γ α) : List Call := c.answers.map Prod.fst ++ c.errand.call?.toList

/-- What was returned for the frames, in order. -/
def frameAnswers (c : Course γ α) : List (Except PacingError Unit) :=
  c.answers.filterMap fun answer => answer.1.frame?.map fun _ => answer.2

/-- Between calls those that have begun are those that were answered. -/
theorem begun_eq {c : Course γ α} (he : c.errand.call? = none) :
    c.begun = c.answers.map Prod.fst := by
  rw [begun, he]
  exact List.append_nil _

/-- An answer ends the call that has begun. -/
theorem begun_answer {c : Course γ α} {call : Call} (errand : c.errand = .call call)
    (result : Except PacingError Unit) :
    ({ c with errand := .idle, answers := c.answers ++ [(call, result)] } : Course γ α).begun =
      c.begun := by
  rw [begun_eq rfl, begun, errand, List.map_append]
  rfl

/-- Whether every call is over, and shutdown has begun or may begin. -/
def Over (c : Course γ α) : Prop := c.todo = [] ∧ ∀ call, c.errand ≠ .call call

variable [Sink Frame γ] [Sink AudioPacket α]

/-- A move of one of the three threads. -/
inductive Step : Course γ α → Course γ α → Prop where
  | begin {c : Course γ α} {call : Call} {rest : List Call} (idle : c.errand = .idle)
      (todo : c.todo = call :: rest) :
      Step c { c with handoff := c.handoff.begin call, todo := rest, errand := .call call }
  | turn {c : Course γ α} {t : Turn} {h : Handoff γ α} (turn : c.handoff.turn t = some h) :
      Step c { c with handoff := h }
  | answer {c : Course γ α} {call : Call} {result : Except PacingError Unit}
      (errand : c.errand = .call call) (phase : c.handoff.phase = .free result) :
      Step c { c with errand := .idle, answers := c.answers ++ [(call, result)] }
  | leaveGraphics {c : Course γ α} (idle : c.errand = .idle) (todo : c.todo = []) :
      Step c
        { c with
          handoff := { c.handoff with graphics := c.handoff.graphics.hangUp }
          errand := .joinGraphics }
  /-- Behind its end the graphics stage is still to be heard of. -/
  | hear {c : Course γ α} {lane : Lane Frame γ} {done : Nat} {rest : List Nat}
      (errand : c.errand = .joinGraphics) (graphics : c.handoff.graphics = .queued lane)
      (gone : lane.isGone = true) (channel : c.handoff.completions.channel = done :: rest) :
      Step c { c with handoff := c.handoff.hear done }
  | leaveAudio {c : Course γ α} (errand : c.errand = .joinGraphics)
      (gone : c.handoff.graphics.isGone = true)
      (heard : c.handoff.graphics.isQueued = true → c.handoff.completions.channel = []) :
      Step c
        { c with
          handoff := { c.handoff with audio := c.handoff.audio.hangUp }
          errand := .joinAudio }
  | finish {c : Course γ α} (errand : c.errand = .joinAudio)
      (gone : c.handoff.audio.isGone = true) : Step c { c with errand := .done }

/-- What holds all along a course. -/
structure Inv (ahead : Bool) (g : γ) (a : α) (calls : List Call) (c : Course γ α) : Prop where
  calls_eq : c.begun ++ c.todo = calls
  stands : c.handoff.Stands ahead (.fed g (Call.frames ahead c.begun))
    (.fed a (Call.packets c.begun)) c.errand
  /-- A frame is refused only when the frames up to it have brought the stage down. -/
  refused : ∀ n cause, c.frameAnswers[n]? = some (.error cause) →
    (Stage.fed g ((Call.frames ahead calls).take (n + 1))).isUp = false
  leaving : c.errand = .idle ∨ (∃ call, c.errand = .call call) ∨ c.todo = []
  graphicsGone : c.errand = .joinAudio ∨ c.errand = .done → c.handoff.graphics.isGone = true
  /-- Nothing is said any more that was not heard. -/
  heard : c.errand = .joinAudio ∨ c.errand = .done →
    c.handoff.graphics.isQueued = true → c.handoff.completions.channel = []
  audioGone : c.errand = .done → c.handoff.audio.isGone = true

variable {ahead : Bool} {g : γ} {a : α} {calls : List Call} {c d : Course γ α}

/-- At the start no call has begun. -/
theorem inv_start (t : Settings.Threading) (processors : Nat) (g : γ) (a : α) (calls : List Call) :
    Inv t.tagsAhead g a calls { handoff := .ofSettings t processors g a, todo := calls } where
  calls_eq := rfl
  stands := Handoff.stands_ofSettings t processors g a
  refused := nofun
  leaving := .inl rfl
  graphicsGone := nofun
  heard := nofun
  audioGone := nofun

omit [Sink Frame γ] [Sink AudioPacket α] in
/-- Every frame of an answered call has an answer. -/
theorem length_frameAnswers (ahead : Bool) (c : Course γ α) :
    (Call.frames ahead (c.answers.map Prod.fst)).length = c.frameAnswers.length := by
  rw [Call.frames, List.length_map, frameAnswers]
  induction c.answers with
  | nil => rfl
  | cons answer rest ih =>
    rw [List.map_cons, List.filterMap_cons, List.filterMap_cons]
    cases answer.1.frame? with
    | none => exact ih
    | some f => exact congrArg (· + 1) ih

omit [Sink AudioPacket α] in
/-- The answer to a frame is the next one, and the frames begun are those answered so far and it. -/
theorem refused_snoc {f : Frame} {result : Except PacingError Unit}
    (errand : c.errand = .call (.frame f)) (hcalls : c.begun ++ c.todo = calls)
    (hrefused : ∀ n cause, c.frameAnswers[n]? = some (.error cause) →
      (Stage.fed g ((Call.frames ahead calls).take (n + 1))).isUp = false)
    (hallows : Handoff.Allows (Stage.fed g (Call.frames ahead c.begun)) (.call (.frame f))
      (.free result)) (n : Nat) (cause : PacingError)
    (hn : (c.frameAnswers ++ [result])[n]? = some (.error cause)) :
    (Stage.fed g ((Call.frames ahead calls).take (n + 1))).isUp = false := by
  have hlength : (Call.frames ahead c.begun).length = c.frameAnswers.length + 1 := by
    rw [begun, errand, Call.frames_append, List.length_append, length_frameAnswers]
    rfl
  rw [List.getElem?_append] at hn
  split at hn
  · exact hrefused n cause hn
  · next hle =>
    have hlast : n - c.frameAnswers.length = 0 ∧ result = .error cause := by
      simpa [List.getElem?_singleton] using hn
    obtain ⟨hsub, rfl⟩ := hlast
    rw [← hcalls, Call.frames_append, List.take_left' (by omega)]
    cases hallows with
    | refused down => exact down

/-- Every move keeps what holds all along. -/
theorem Inv.step (hc : c.Inv ahead g a calls) (hstep : c.Step d) : d.Inv ahead g a calls := by
  obtain ⟨hcalls, hstands, hrefused, hleaving, hgraphics, hheard, haudio⟩ := hc
  cases hstep with
  | @begin call rest idle todo =>
    rw [begun_eq (by rw [idle]; rfl)] at hcalls hstands
    rw [idle] at hstands
    have hcall := hstands.begin call
    rw [← Stage.fed_append, ← Stage.fed_append, ← Call.frames_append, ← Call.packets_append]
      at hcall
    refine ⟨?_, hcall, hrefused, .inr (.inl ⟨call, rfl⟩), nofun, nofun, nofun⟩
    rw [todo] at hcalls
    exact (List.append_assoc _ _ _).trans hcalls
  | @turn t h hturn =>
    have hstill : c.errand = .joinAudio ∨ c.errand = .done → ∀ call, c.errand ≠ .call call := by
      rintro (he | he) <;> simp [he]
    -- Once the graphics thread has ended, only the audio thread moves.
    have hcases : c.errand = .joinAudio ∨ c.errand = .done →
        ∃ o, c.handoff.audio.act = some o ∧ h = { c.handoff with audio := o } := by
      intro he
      refine (hstands.turn_cases (hstill he) hturn).resolve_left ?_
      rintro ⟨o, ho, -⟩
      exact hstands.graphics.not_act_of_gone (hgraphics he) ho
    refine ⟨hcalls, hstands.turn hturn, hrefused, hleaving,
      fun he => ?_, fun he => ?_, fun he => ?_⟩
    · obtain ⟨o, -, rfl⟩ := hcases he
      exact hgraphics he
    · obtain ⟨o, -, rfl⟩ := hcases he
      exact hheard he
    · obtain ⟨o, ho, rfl⟩ := hcases (.inr he)
      exact Outlet.isGone_act ho (haudio he)
  | @answer call result errand phase =>
    have hbegun := begun_answer errand result
    have hallows := hstands.allows
    rw [errand] at hstands
    refine ⟨hbegun ▸ hcalls, hbegun ▸ hstands.answer phase, ?_, .inl rfl, nofun, nofun, nofun⟩
    rw [errand, phase] at hallows
    rw [frameAnswers, List.filterMap_append]
    cases call with
    | frame f => exact refused_snoc errand hcalls hrefused hallows
    | audio p => exact (List.append_nil c.frameAnswers).symm ▸ hrefused
  | leaveGraphics idle todo =>
    rw [begun_eq (by rw [idle]; rfl)] at hcalls hstands
    rw [idle] at hstands
    exact ⟨by rwa [begun_eq rfl], by rw [begun_eq rfl]; exact hstands.hangUpGraphics, hrefused,
      .inr (.inr todo), nofun, nofun, nofun⟩
  | hear errand graphics gone channel =>
    exact ⟨hcalls, hstands.hear channel, hrefused, hleaving,
      fun he => absurd he (by simp [errand]), fun he => absurd he (by simp [errand]),
      fun he => absurd he (by simp [errand])⟩
  | leaveAudio errand gone heard =>
    rw [begun_eq (by rw [errand]; rfl)] at hcalls hstands
    have htodo : c.todo = [] := by simpa [errand] using hleaving
    rw [errand] at hstands
    exact ⟨by rwa [begun_eq rfl], by rw [begun_eq rfl]; exact hstands.hangUpAudio, hrefused,
      .inr (.inr htodo), fun _ => gone, fun _ => heard, nofun⟩
  | finish errand gone =>
    rw [begun_eq (by rw [errand]; rfl)] at hcalls hstands
    have htodo : c.todo = [] := by simpa [errand] using hleaving
    rw [errand] at hstands
    exact ⟨by rwa [begun_eq rfl], by rw [begun_eq rfl]; exact hstands.finish, hrefused,
      .inr (.inr htodo), fun _ => hgraphics (.inl errand), fun _ => hheard (.inl errand),
      fun _ => gone⟩

/-- The invariant holds behind every course. -/
theorem Inv.reaches (hc : c.Inv ahead g a calls) (hd : Relation.ReflTransGen Step c d) :
    d.Inv ahead g a calls := by
  induction hd with
  | refl => exact hc
  | tail _ hstep ih => exact ih.step hstep

/-! ## Every course comes to its end -/

/-- A course that is not done goes on. -/
theorem Inv.exists_step (hc : c.Inv ahead g a calls) (he : c.errand ≠ .done) :
    ∃ d, c.Step d := by
  have hstands := hc.stands
  cases errand : c.errand with
  | done => exact absurd errand he
  | idle =>
    cases todo : c.todo with
    | nil => exact ⟨_, .leaveGraphics errand todo⟩
    | cons call rest => exact ⟨_, .begin errand todo⟩
  | call call =>
    cases phase : c.handoff.phase with
    | free result => exact ⟨_, .answer errand phase⟩
    | pushing | awaiting | settling | mixing =>
      obtain ⟨t, h, hturn⟩ := hstands.exists_turn (by simp [phase])
      exact ⟨_, .turn hturn⟩
  | joinGraphics =>
    cases gone : c.handoff.graphics.isGone with
    | true =>
      cases graphics : c.handoff.graphics with
      | direct stage =>
        exact ⟨_, .leaveAudio errand gone fun hqueued => absurd (graphics ▸ hqueued) nofun⟩
      | queued lane =>
        cases channel : c.handoff.completions.channel with
        | nil => exact ⟨_, .leaveAudio errand gone fun _ => channel⟩
        | cons done rest =>
          rw [graphics] at gone
          exact ⟨_, .hear errand graphics gone channel⟩
    | false =>
      rw [errand] at hstands
      obtain ⟨o, ho⟩ := hstands.graphics.exists_act gone
      exact ⟨_, .turn (t := .graphics) (congrArg (Option.map _) ho)⟩
  | joinAudio =>
    cases gone : c.handoff.audio.isGone with
    | true => exact ⟨_, .finish errand gone⟩
    | false =>
      rw [errand] at hstands
      obtain ⟨o, ho⟩ := hstands.audio.exists_act gone
      exact ⟨_, .turn (t := .audio) (congrArg (Option.map _) ho)⟩

/-- Moves of the producer from errand to errand. -/
def errandWork : Errand → Nat
  | .call _ => 5
  | .idle => 4
  | .joinGraphics => 3
  | .joinAudio => 2
  | .done => 1

/-- Moves that are left at most. -/
def work (c : Course γ α) : Nat := 10 * c.todo.length + errandWork c.errand + c.handoff.work

/-- Every step leaves less work. -/
theorem Inv.work_step (hc : c.Inv ahead g a calls) (hstep : c.Step d) : d.work < c.work := by
  cases hstep with
  | @begin call rest idle todo =>
    have hcall := c.handoff.work_begin call
    simp only [work, idle, todo, errandWork, List.length_cons]
    omega
  | turn hturn =>
    have hmove := hc.stands.work_turn hturn
    simp only [work]
    omega
  | answer errand =>
    simp only [work, errand, errandWork]
    omega
  | leaveGraphics idle =>
    simp only [work, Handoff.work, idle, errandWork, Outlet.work_hangUp]
    omega
  | @hear lane done rest errand graphics gone channel =>
    obtain ⟨hdone, hle⟩ := (hc.stands.counted lane graphics).work_hear channel
    have hmove : (c.handoff.hear done).work < c.handoff.work := by
      rw [Handoff.work, Handoff.work]
      change Handoff.weight c.handoff.phase + c.handoff.graphics.work + c.handoff.audio.work +
        (c.handoff.completions.submitted - done) < _
      omega
    simp only [work]
    omega
  | leaveAudio errand =>
    simp only [work, Handoff.work, errand, errandWork, Outlet.work_hangUp]
    omega
  | finish errand =>
    simp only [work, errand, errandWork]
    omega

/-- No course goes on for ever. -/
theorem Inv.not_endless (hc : c.Inv ahead g a calls) :
    ¬∃ run : Nat → Course γ α, run 0 = c ∧ ∀ n, (run n).Step (run (n + 1)) :=
  RenderStream.not_endless work (fun hc hstep => ⟨hc.step hstep, hc.work_step hstep⟩) hc

/-! ## How a course ends -/

omit [Sink Frame γ] [Sink AudioPacket α] in
/-- When all is over, no call is made. -/
theorem Over.call?_eq_none (hc : c.Over) : c.errand.call? = none := by
  cases errand : c.errand with
  | call call => exact absurd errand (hc.2 call)
  | idle | joinGraphics | joinAudio | done => rfl

/-- When all is over, all calls have begun. -/
theorem Inv.begun_of_over (hc : c.Inv ahead g a calls) (hover : c.Over) : c.begun = calls := by
  have hcalls := hc.calls_eq
  rwa [hover.1, List.append_nil] at hcalls

/-- When the stages are gone, all is over. -/
theorem Inv.over_of_done (hc : c.Inv ahead g a calls) (hdone : c.errand = .done) : c.Over :=
  ⟨by simpa [hdone] using hc.leaving, by simp [hdone]⟩

/-- Whenever the calls are over, shutdown reports the same. -/
theorem Inv.shutdown (hc : c.Inv ahead g a calls) (hover : c.Over) :
    let graphics := (Stage.fed g (Call.frames ahead calls)).finish
    let audio := (Stage.fed a (Call.packets calls)).finish
    c.handoff.shutdown.1.graphics.stage = graphics ∧ c.handoff.shutdown.1.audio.stage = audio ∧
      c.handoff.shutdown.2.frames = graphics.account ∧
      c.handoff.shutdown.2.error = graphics.error? ∧
      c.handoff.shutdown.2.packets = audio.account := by
  have hstands := hc.stands.shutdown hover.2
  rwa [hc.begun_of_over hover] at hstands

/-- When all is done there is nothing left for a shutdown to do. -/
theorem Inv.stages_of_done (hc : c.Inv ahead g a calls) (hdone : c.errand = .done) :
    c.handoff.graphics.stage = (Stage.fed g (Call.frames ahead calls)).finish ∧
      c.handoff.audio.stage = (Stage.fed a (Call.packets calls)).finish := by
  have hstands := hc.stands
  rw [hc.begun_of_over (hc.over_of_done hdone), hdone] at hstands
  exact ⟨hstands.graphics.stage_of_gone (hc.graphicsGone (.inr hdone)),
    hstands.audio.stage_of_gone (hc.audioGone hdone)⟩

/-- When all is over, every frame has an answer. -/
theorem Inv.length_frameAnswers (hc : c.Inv ahead g a calls) (hover : c.Over) :
    c.frameAnswers.length = (Call.frames ahead calls).length := by
  rw [← Course.length_frameAnswers ahead, ← begun_eq hover.call?_eq_none, hc.begun_of_over hover]

/-- A frame that was refused is none of those that were served. -/
theorem Inv.served_le (hc : c.Inv ahead g a calls) {n : Nat} {cause : PacingError}
    (hn : c.frameAnswers[n]? = some (.error cause)) :
    (Stage.fed g (Call.frames ahead calls)).finish.account ≤ n := by
  have hdown := hc.refused n cause hn
  have hsplit : Stage.fed g (Call.frames ahead calls) =
      Stage.fed g ((Call.frames ahead calls).take (n + 1)) := by
    conv => lhs; rw [← List.take_append_drop (n + 1) (Call.frames ahead calls)]
    rw [Stage.fed_append, Stage.foldl_serve_of_down hdown]
  have hserved : (Stage.fed g (Call.frames ahead calls)).served < n + 1 := by
    rw [hsplit]
    refine Nat.lt_of_lt_of_le (Stage.served_foldl_lt rfl hdown) ?_
    rw [Nat.zero_add]
    exact List.length_take_le _ _
  have haccount : (Stage.fed g (Call.frames ahead calls)).finish.account ≤
      (Stage.fed g (Call.frames ahead calls)).served := by
    rw [Stage.account, Stage.served_finish]
    split <;> omega
  omega

end Course

/-! ## Tags -/

/-- A sink that ignores tags is fed tagged frames like any others. -/
theorem IgnoresTags.fed_tagged {γ : Type} [Sink Frame γ] (h : IgnoresTags γ) (g : γ)
    (frames : List Frame) : Stage.fed g (frames.map Frame.tagged) = Stage.fed g frames := by
  have hserve : (fun (s : Stage γ) (f : Frame) => s.serve f.tagged) = Stage.serve := by
    funext s f
    rw [Stage.serve, Stage.serve, h f.tagged f s.sink f.tagged_tagged]
  rw [Stage.fed, List.foldl_map, hserve]
  rfl

/-- What reaches the stage is what was submitted, tags apart. -/
theorem Call.map_tagged_frames (ahead : Bool) (calls : List Call) :
    (Call.frames ahead calls).map Frame.tagged =
      (calls.filterMap Call.frame?).map Frame.tagged := by
  have hhanded : Frame.tagged ∘ Frame.handed ahead = Frame.tagged := by
    funext f
    cases ahead with
    | false => rfl
    | true => exact f.tagged_tagAhead
  rw [Call.frames, List.map_map, hhanded]

/-- Whether lists are tagged ahead does not matter to a sink that ignores tags. -/
theorem Call.fed_frames {γ : Type} [Sink Frame γ] {a b : Bool} (h : a = b ∨ IgnoresTags γ) (g : γ)
    (calls : List Call) :
    Stage.fed g (Call.frames a calls) = Stage.fed g (Call.frames b calls) := by
  rcases h with rfl | h
  · rfl
  · rw [← h.fed_tagged, Call.map_tagged_frames, ← Call.map_tagged_frames b, h.fed_tagged]

namespace Course

variable {γ α : Type} [Sink Frame γ] [Sink AudioPacket α]

/-! ## Threads change nothing -/

namespace Demo

/-- A sink that counts frames and fails on one of them. -/
structure Picky where
  bad : UInt64
  kept : Nat := 0
deriving DecidableEq

instance : Sink Frame Picky where
  accept f s :=
    if f.index = s.bad then ⟨s, some (.failed (.framesLost 1 .deviceLost))⟩
    else ⟨{ s with kept := s.kept + 1 }, none⟩
  finish s := s

/-- Two lists to tag, then a frame that fails, then one that is too late. -/
def calls : List Call :=
  [.frame { index := 0, items := [.list { commands := [] }, .list { commands := [.barrier] }] },
    .audio { samples := [1, 2] }, .frame { index := 1 }, .frame { index := 2 }]

end Demo

/-- However the threads are scheduled, a course comes to its end, and it ends as the calls alone do
when neither stage has a thread. The graphics stage is given the frames in order, up to the first
one that it fails on, and then told once that no further frame comes; they differ from those
submitted in nothing but tags that change no fingerprint. A frame that was refused is none of those
that it served. The audio stage is given every packet in order. -/
theorem threads_refine_calls (t i : Settings.Threading) (processors processors' : Nat) (g : γ)
    (a : α) (calls : List Call) (hi : i.asyncGraphics = false ∧ i.asyncAudio = false)
    (htags : i.tagsAhead = t.tagsAhead ∨ IgnoresTags γ)
    (hcalm : (Stage.fed g (Call.frames t.tagsAhead calls)).panicked = false)
    (hsteady : (Stage.fed a (Call.packets calls)).breakdown = none) :
    let start : Course (Watched Frame γ) (Watched AudioPacket α) :=
      { handoff := .ofSettings t processors ⟨g, []⟩ ⟨a, []⟩, todo := calls }
    let handed := Call.frames t.tagsAhead calls
    let inline := (calls.foldl Handoff.begin (.ofSettings i processors' g a)).shutdown.2
    (¬∃ run : Nat → Course _ _, run 0 = start ∧ ∀ n, (run n).Step (run (n + 1))) ∧
    handed.map Frame.tagged = (calls.filterMap Call.frame?).map Frame.tagged ∧
    ∀ c, Relation.ReflTransGen Step start c →
      (c.errand ≠ .done → ∃ d, c.Step d) ∧
      (c.Over → c.handoff.shutdown.2.frames = inline.frames ∧
        c.handoff.shutdown.2.error = inline.error ∧
        c.handoff.shutdown.2.packets = inline.packets) ∧
      (c.errand = .done → c.Over ∧
        c.handoff.shutdown.1.graphics.stage = c.handoff.graphics.stage ∧
        c.handoff.shutdown.1.audio.stage = c.handoff.audio.stage ∧
        Notice.InOrder handed inline.frames inline.error c.handoff.graphics.stage.sink.log ∧
        Notice.InOrder (Call.packets calls) inline.packets none c.handoff.audio.stage.sink.log ∧
        c.frameAnswers.length = handed.length ∧
        ∀ n cause, c.frameAnswers[n]? = some (.error cause) → inline.frames ≤ n) := by
  intro start handed inline
  have hstart := inv_start t processors (⟨g, []⟩ : Watched Frame γ)
    (⟨a, []⟩ : Watched AudioPacket α) calls
  have hinline : inline.frames = (Stage.fed g handed).finish.account ∧
      inline.error = (Stage.fed g handed).finish.error? ∧
      inline.packets = (Stage.fed a (Call.packets calls)).finish.account := by
    have hdirect := (Handoff.stands_ofSettings i processors' g a).calls_direct
      (by rw [Handoff.ofSettings, hi.1]; rfl) (by rw [Handoff.ofSettings, hi.2]; rfl) calls
    rw [← Stage.fed, ← Stage.fed, Call.fed_frames htags] at hdirect
    exact (hdirect.shutdown fun _ hidle => by cases hidle).2.2
  obtain ⟨hframes, herror, hpackets⟩ := hinline
  refine ⟨hstart.not_endless, Call.map_tagged_frames _ _, fun c hc => ?_⟩
  have hinv := hstart.reaches hc
  refine ⟨hinv.exists_step, fun hover => ?_, fun hdone => ?_⟩
  · obtain ⟨-, -, hframes', herror', hpackets'⟩ := hinv.shutdown hover
    rw [hframes', herror', hpackets', hframes, herror, hpackets]
    exact ⟨Stage.account_finish_fed _ _, Stage.error?_finish_fed _ _, Stage.account_finish_fed _ _⟩
  · have hover := hinv.over_of_done hdone
    obtain ⟨hgraphics, haudio⟩ := hinv.stages_of_done hdone
    obtain ⟨hgraphics', haudio', -⟩ := hinv.shutdown hover
    refine ⟨hover, hgraphics'.trans hgraphics.symm, haudio'.trans haudio.symm, ?_, ?_,
      hinv.length_frameAnswers hover, fun n cause hn => ?_⟩
    · rw [hframes, herror, ← Stage.account_finish_fed, ← Stage.error?_finish_fed, hgraphics]
      exact Stage.inOrder_finish_fed hcalm
    · have hpanicked : (Stage.fed a (Call.packets calls)).panicked = false := by
        rw [Stage.panicked, hsteady]
        rfl
      have hnone : (Stage.fed a (Call.packets calls)).finish.error? = none := by
        rw [Stage.error?, Stage.breakdown_finish, hsteady]
      rw [hpackets, ← hnone, ← Stage.account_finish_fed, ← Stage.error?_finish_fed, haudio]
      exact Stage.inOrder_finish_fed hpanicked
    · rw [hframes, ← Stage.account_finish_fed]
      exact hinv.served_le hn

/-- Two lists are tagged by the workers, one frame is served, and the next one stops the stage,
whatever the threads do. -/
theorem threads_refine_calls_demo :
    let start : Course (Watched Frame Demo.Picky) (Watched AudioPacket Silence) :=
      { handoff := .ofSettings { parallelLists := true } 4 ⟨{ bad := 1 }, []⟩ ⟨{}, []⟩
        todo := Demo.calls }
    IgnoresTags Demo.Picky ∧ ∀ c, Relation.ReflTransGen Step start c → c.errand = .done →
      c.handoff.shutdown.2.frames = 1 ∧
        c.handoff.shutdown.2.error = some (.framesLost 1 .deviceLost) ∧
        c.handoff.shutdown.2.packets = 1 := by
  have htags : IgnoresTags Demo.Picky := by
    intro f f' s hf
    have hindex : f.tagged.index = f'.tagged.index := congrArg Frame.index hf
    change f.index = f'.index at hindex
    simp only [Sink.accept, hindex]
  refine ⟨htags, fun c hc hdone => ?_⟩
  obtain ⟨-, -, h⟩ := threads_refine_calls { parallelLists := true }
    { asyncGraphics := false, asyncAudio := false } 4 4 ({ bad := 1 } : Demo.Picky) ({} : Silence)
    Demo.calls ⟨rfl, rfl⟩ (.inr htags) (by decide) (by decide)
  obtain ⟨-, hreport, hend⟩ := h c hc
  obtain ⟨hframes, herror, hpackets⟩ := hreport (hend hdone).1
  exact ⟨hframes.trans (by decide), herror.trans (by decide), hpackets.trans (by decide)⟩

end Course

end RenderStream
