import RenderStream.Pacing.Handoff
import RenderStream.Proofs.Outlet
import RenderStream.Proofs.Tagging

/-!
# Every moment of a handoff

A producer with its stages is at any moment on some errand, and `Handoff.Stands` is all that has to
be known of that moment: what the two stages will have made of everything that was handed over so
far, where the producer may stand on its errand, and what it knows of the frames that were served,
the counts on their way to it included (`Handoff.Counted`). It holds before the first call, and is
kept when a call begins, when any of the three threads moves, and on each stretch of the way down.

`Handoff.Act` lists the moves of the producer, as `Lane.Act` lists those of the other threads; what
follows is read off these lists.
-/

namespace RenderStream

/-- A call of the producer. -/
inductive Call where
  | frame (frame : Frame)
  | audio (packet : AudioPacket)
deriving DecidableEq

/-- What the producer is about. -/
inductive Errand where
  | idle
  | call (call : Call)
  /-- Awaiting the end of the graphics stage. -/
  | joinGraphics
  /-- Awaiting the end of the audio stage. -/
  | joinAudio
  | done
deriving DecidableEq

/-- The frame that reaches the stage when a frame is handed over. -/
def Frame.handed (ahead : Bool) (frame : Frame) : Frame := if ahead then frame.tagAhead else frame

/-- Whether the workers put tags on frames. -/
def Settings.Threading.tagsAhead (t : Settings.Threading) : Bool := t.parallelLists && t.useWorkers

namespace Call

def frame? : Call → Option Frame
  | .frame f => some f
  | .audio _ => none

def packet? : Call → Option AudioPacket
  | .frame _ => none
  | .audio p => some p

/-- The frames of some calls, as they reach the stage. -/
def frames (ahead : Bool) (calls : List Call) : List Frame :=
  (calls.filterMap frame?).map (Frame.handed ahead)

def packets (calls : List Call) : List AudioPacket := calls.filterMap packet?

/-- The frames of calls are handed in one after the other. -/
theorem frames_append (ahead : Bool) (as bs : List Call) :
    frames ahead (as ++ bs) = frames ahead as ++ frames ahead bs := by
  rw [frames, List.filterMap_append, List.map_append]
  rfl

/-- The packets of calls are handed in one after the other. -/
theorem packets_append (as bs : List Call) : packets (as ++ bs) = packets as ++ packets bs :=
  List.filterMap_append

end Call

namespace Handoff

variable {γ α : Type} {h h' : Handoff γ α}

/-! ## The producer's moves -/

/-- The moves of the producer. -/
inductive Act (h : Handoff γ α) : Handoff γ α → Prop where
  | frameRefused {frame : Frame} {waited : Bool} {lane : Lane Frame γ}
      (phase : h.phase = .pushing frame waited) (graphics : h.graphics = .queued lane)
      (gone : lane.isGone = true) : Act h (h.give (.error .graphicsStopped))
  | waits {frame : Frame} {lane : Lane Frame γ} (phase : h.phase = .pushing frame false)
      (graphics : h.graphics = .queued lane) : Act h { h with phase := .pushing frame true }
  | pushes {frame : Frame} {waited : Bool} {lane : Lane Frame γ} {queue : Queue Frame}
      (delivery : Delivery) (phase : h.phase = .pushing frame waited)
      (graphics : h.graphics = .queued lane) (taken : lane.queue.offer frame = (queue, .taken)) :
      Act h ({ h with graphics := .queued { lane with queue } }.pushed delivery)
  /-- Within a wait or behind it. -/
  | hears {lane : Lane Frame γ} {done : Nat} {rest : List Nat}
      (phase : h.phase = .awaiting ∨ h.phase = .settling) (graphics : h.graphics = .queued lane)
      (channel : h.completions.channel = done :: rest) : Act h (h.hear done)
  | abandoned {lane : Lane Frame γ} (phase : h.phase = .awaiting)
      (graphics : h.graphics = .queued lane) (gone : lane.isGone = true) :
      Act h (h.give (.error .graphicsStopped))
  | awaited {lane : Lane Frame γ} (late : Bool) (phase : h.phase = .awaiting)
      (graphics : h.graphics = .queued lane)
      (none_left : h.completions.submitted ≤ h.completions.completed) :
      Act h { h with fallback := h.fallback.await late, phase := .settling }
  | settles {lane : Lane Frame γ} (phase : h.phase = .settling)
      (graphics : h.graphics = .queued lane) (channel : h.completions.channel = []) :
      Act h (h.give (.ok ()))
  | packetRefused {packet : AudioPacket} {lane : Lane AudioPacket α}
      (phase : h.phase = .mixing packet) (audio : h.audio = .queued lane)
      (gone : lane.isGone = true) : Act h (h.give (.error .audioStopped))
  | mixes {packet : AudioPacket} {lane : Lane AudioPacket α} {queue : Queue AudioPacket}
      (phase : h.phase = .mixing packet) (audio : h.audio = .queued lane)
      (taken : lane.queue.offer packet = (queue, .taken)) :
      Act h
        ({ h with audio := .queued { lane with queue }, counts := h.counts.audio }.give (.ok ()))

/-- Only a lane whose stage is gone refuses an item. -/
theorem isGone_of_refused {ι σ : Type} {l : Lane ι σ} {item : ι} {queue : Queue ι}
    (h : l.queue.offer item = (queue, .refused)) : l.isGone = true := by
  rw [Lane.isGone, Queue.offer_eq_refused h]
  rfl

/-- Every act of the producer is one of those that are told apart. -/
theorem act_cases {late : Bool} (hact : h.act late = some h') : h.Act h' := by
  rw [act.eq_def] at hact
  split at hact
  · next frame waited lane phase graphics =>
    split at hact
    · next hoffer =>
      exact Option.some.inj hact ▸ .frameRefused phase graphics (isGone_of_refused hoffer)
    · split at hact
      · exact absurd hact nofun
      · next hwaited =>
        rw [Bool.not_eq_true] at hwaited
        exact Option.some.inj hact ▸ .waits (hwaited ▸ phase) graphics
    · next hoffer => exact Option.some.inj hact ▸ .pushes _ phase graphics hoffer
  · next lane phase graphics =>
    split at hact
    · split at hact
      · next channel => exact Option.some.inj hact ▸ .hears (.inl phase) graphics channel
      · split at hact
        · next gone => exact Option.some.inj hact ▸ .abandoned phase graphics gone
        · exact absurd hact nofun
    · next some_left =>
      exact Option.some.inj hact ▸ .awaited _ phase graphics (Nat.not_lt.1 some_left)
  · next lane phase graphics =>
    split at hact
    · next channel => exact Option.some.inj hact ▸ .hears (.inr phase) graphics channel
    · next channel => exact Option.some.inj hact ▸ .settles phase graphics channel
  · next packet lane phase audio =>
    split at hact
    · next hoffer =>
      exact Option.some.inj hact ▸ .packetRefused phase audio (isGone_of_refused hoffer)
    · exact absurd hact nofun
    · next hoffer => exact Option.some.inj hact ▸ .mixes phase audio hoffer
  · exact absurd hact nofun

/-- Behind a push the producer waits for the frame, or it looks what was completed meanwhile. -/
theorem pushed_phase (h : Handoff γ α) (d : Delivery) :
    (h.pushed d).phase = .awaiting ∨ (h.pushed d).phase = .settling := by
  rw [pushed]
  exact (ite_eq_or_eq _ _ _)

/-- A push counts the frame. -/
theorem pushed_submitted (h : Handoff γ α) (d : Delivery) :
    (h.pushed d).counts.submitted = h.counts.submitted + 1 := by
  rw [pushed]
  exact (apply_ite PacingCounts.submitted _ _ _).trans (ite_self _)

/-- A push completes no frame. -/
theorem pushed_completed (h : Handoff γ α) (d : Delivery) :
    (h.pushed d).counts.completed = h.counts.completed := by
  rw [pushed]
  exact (apply_ite PacingCounts.completed _ _ _).trans (ite_self _)

variable [Sink Frame γ] [Sink AudioPacket α] {e : Errand} {ahead : Bool} {y : Stage γ}
  {z : Stage α}

/-! ## What holds at every moment -/

/-- Where the producer may stand on an errand. A frame is refused only once the stage is down. -/
inductive Allows (y : Stage γ) : Errand → Phase → Prop where
  | pushing {f g : Frame} {waited : Bool} : Allows y (.call (.frame f)) (.pushing g waited)
  | awaiting {f : Frame} : Allows y (.call (.frame f)) .awaiting
  | settling {f : Frame} : Allows y (.call (.frame f)) .settling
  | handed {f : Frame} : Allows y (.call (.frame f)) (.free (.ok ()))
  | refused {f : Frame} {cause : PacingError} (down : y.isUp = false) :
      Allows y (.call (.frame f)) (.free (.error cause))
  | mixing {p q : AudioPacket} : Allows y (.call (.audio p)) (.mixing q)
  | mixed {p : AudioPacket} {r : Except PacingError Unit} : Allows y (.call (.audio p)) (.free r)
  | idle {r : Except PacingError Unit} : Allows y .idle (.free r)
  | joinGraphics {r : Except PacingError Unit} : Allows y .joinGraphics (.free r)
  | joinAudio {r : Except PacingError Unit} : Allows y .joinAudio (.free r)
  | done {r : Except PacingError Unit} : Allows y .done (.free r)

omit [Sink Frame γ] [Sink AudioPacket α] in
/-- What comes of handing a frame in does not depend on the frame. -/
theorem Allows.free_frame {f g : Frame} {r : Except PacingError Unit}
    (ha : Allows y (.call (.frame f)) (.free r)) : Allows y (.call (.frame g)) (.free r) := by
  cases ha with
  | handed => exact .handed
  | refused down => exact .refused down

omit [Sink Frame γ] [Sink AudioPacket α] in
/-- Between calls the producer is free. -/
theorem Allows.exists_free {phase : Phase} (ha : Allows y e phase) (he : ∀ call, e ≠ .call call) :
    ∃ r, phase = .free r := by
  cases ha with
  | pushing | awaiting | settling | mixing => exact absurd rfl (he _)
  | _ => exact ⟨_, rfl⟩

/-- What the producer still offers to the graphics stage. -/
def graphicsDoor (e : Errand) (phase : Phase) : Option (List Frame) :=
  match e, phase with
  | .call _, .pushing frame _ => some [frame]
  | .call _, _ | .idle, _ => some []
  | .joinGraphics, _ | .joinAudio, _ | .done, _ => none

/-- What the producer still offers to the audio stage. -/
def audioDoor (e : Errand) (phase : Phase) : Option (List AudioPacket) :=
  match e, phase with
  | .call _, .mixing packet => some [packet]
  | .call _, _ | .idle, _ | .joinGraphics, _ => some []
  | .joinAudio, _ | .done, _ => none

/-- What the producer knows of a stage: the counts that it has received and those on their way are
the stage's own, one for every frame that was served, and a stage that is up has served or still
holds everything. -/
structure Counted (c : Completions) (l : Lane Frame γ) : Prop where
  tells : c.Tells l.stage.served
  given : l.stage.served + l.pending.length ≤ c.submitted
  all : l.stage.isUp = true → l.stage.served + l.pending.length = c.submitted

/-- Whether a call has to do with the thread of the graphics stage. -/
def onGraphics : Phase → Bool
  | .pushing _ _ | .awaiting | .settling => true
  | .free _ | .mixing _ => false

/-- Whether a call has to do with the thread of the audio stage. -/
def onAudio : Phase → Bool
  | .mixing _ => true
  | .free _ | .pushing _ _ | .awaiting | .settling => false

def tagsAhead (h : Handoff γ α) : Bool := h.parallelLists && h.workers.isThreaded

/-- A moment: once all that was handed over has been served, the graphics stage is `y` and the audio
stage is `z`. -/
structure Stands (ahead : Bool) (y : Stage γ) (z : Stage α) (e : Errand) (h : Handoff γ α) :
    Prop where
  ahead_eq : h.tagsAhead = ahead
  graphics : h.graphics.LeadsTo (graphicsDoor e h.phase) y
  audio : h.audio.LeadsTo (audioDoor e h.phase) z
  allows : Allows y e h.phase
  graphicsThread : onGraphics h.phase = true → h.graphics.isQueued = true
  audioThread : onAudio h.phase = true → h.audio.isQueued = true
  counted : ∀ lane, h.graphics = .queued lane → Counted h.completions lane

/-- What a thread says behind an item keeps the counts in step with the stage. -/
theorem tells_serve {c : Completions} {s : Stage γ} (h : c.Tells s.served) (f : Frame) :
    (c.send (s.serve f).word).Tells (s.serve f).served := by
  rw [Stage.word]
  split
  · next hup =>
    rw [Stage.served_serve hup]
    exact h.send
  · next hdown =>
    rw [Completions.send_nil, Stage.served_serve_of_down (Bool.eq_false_iff.2 hdown)]
    exact h

/-- What a thread says on its way to its end keeps the counts in step with the stage. -/
theorem tells_words {c : Completions} {s : Stage γ} (h : c.Tells s.served) (fs : List Frame) :
    (c.send (s.words fs)).Tells (fs.foldl Stage.serve s).served := by
  induction fs generalizing c s with
  | nil =>
    rw [Stage.words, Completions.send_nil]
    exact h
  | cons f rest ih =>
    have hrest := ih (tells_serve h f)
    rw [Completions.send_send] at hrest
    exact hrest

/-- The thread of a stage says what it does. -/
theorem Counted.act {c : Completions} {l l' : Lane Frame γ} (hc : Counted c l)
    (hact : l.act = some l') : Counted (c.send l.word) l' := by
  cases Lane.act_cases hact with
  | @serve item hand =>
    have hword : l.word = (l.stage.serve item).word := by simp only [Lane.word, hand]
    rw [hword]
    have hpending : l.pending = item :: l.queue.items := by rw [Lane.pending, hand]; rfl
    have hgiven := hc.given
    rw [hpending, List.length_cons] at hgiven
    refine ⟨tells_serve hc.tells item, ?_, fun hup => ?_⟩
    · have hserved := l.stage.served_serve_le item
      change (l.stage.serve item).served + l.queue.items.length ≤ c.submitted
      omega
    · have hall := hc.all (Stage.isUp_of_serve hup)
      rw [hpending, List.length_cons] at hall
      change (l.stage.serve item).served + l.queue.items.length = c.submitted
      rw [Stage.served_serve hup]
      omega
  | exitDown hand | exitEnded hand =>
    have hword : l.word = [] := by simp only [Lane.word, hand]
    rw [hword, Completions.send_nil]
    refine ⟨?_, ?_, fun hup => by simp [Lane.exit] at hup⟩ <;>
      simp only [Lane.exit, Stage.served_finish]
    · exact hc.tells
    · exact hc.given
  | @take item rest hand _ _ items =>
    have hword : l.word = [] := by simp only [Lane.word, hand]
    have hpending : ({ l with
        hand := some item, queue := { l.queue with items := rest } } : Lane Frame γ).pending =
        l.pending := by
      simp only [Lane.pending, hand, items]
      rfl
    rw [hword, Completions.send_nil]
    exact ⟨hc.tells, hpending.symm ▸ hc.given, fun hup => hpending.symm ▸ hc.all hup⟩

omit [Sink Frame γ] [Sink AudioPacket α] in
/-- A count that is heard is one of the stage. -/
theorem Counted.hear {h : Handoff γ α} {l : Lane Frame γ} {done : Nat} {rest : List Nat}
    (hc : Counted h.completions l) (channel : h.completions.channel = done :: rest) :
    Counted (h.hear done).completions l := ⟨hc.tells.receive channel, hc.given, hc.all⟩

/-! ## The moves of the threads -/

/-- A move of the graphics thread. -/
theorem Stands.graphicsTurn (hs : h.Stands ahead y z e) {o : Outlet Frame γ}
    (hact : h.graphics.act = some o) :
    ({ h with
      graphics := o
      completions := h.completions.send h.graphics.word } : Handoff γ α).Stands ahead y z e where
  ahead_eq := hs.ahead_eq
  graphics := hs.graphics.act hact
  audio := hs.audio
  allows := hs.allows
  graphicsThread hphase := (Outlet.isQueued_act hact).trans (hs.graphicsThread hphase)
  audioThread := hs.audioThread
  counted lane hlane := by
    cases hg : h.graphics with
    | direct => exact absurd (hg ▸ hact) nofun
    | queued l =>
      rw [hg] at hact
      obtain ⟨l', hl', ho⟩ := Option.map_eq_some_iff.1 hact
      obtain rfl : l' = lane := Outlet.queued.inj (ho.trans hlane)
      exact (hs.counted l hg).act hl'

/-- A move of the audio thread. -/
theorem Stands.audioTurn (hs : h.Stands ahead y z e) {o : Outlet AudioPacket α}
    (hact : h.audio.act = some o) :
    ({ h with audio := o } : Handoff γ α).Stands ahead y z e where
  ahead_eq := hs.ahead_eq
  graphics := hs.graphics
  audio := hs.audio.act hact
  allows := hs.allows
  graphicsThread := hs.graphicsThread
  audioThread hphase := (Outlet.isQueued_act hact).trans (hs.audioThread hphase)
  counted := hs.counted

omit [Sink Frame γ] [Sink AudioPacket α] in
/-- A frame that got into the queue is one that the stage holds. -/
theorem Counted.taken {c : Completions} {lane : Lane Frame γ} {queue : Queue Frame} {frame : Frame}
    (hc : Counted c lane) (htaken : lane.queue.offer frame = (queue, .taken)) :
    Counted c.submit { lane with queue } := by
  obtain ⟨-, -, rfl⟩ := Queue.offer_eq_taken htaken
  have hpending :
      (Lane.pending { lane with
        queue := { lane.queue with items := lane.queue.items ++ [frame] } }).length =
      lane.pending.length + 1 := by
    simp only [Lane.pending, List.length_append, List.length_singleton, Nat.add_assoc]
  refine ⟨hc.tells.submit, ?_, fun hup => ?_⟩
  · rw [hpending]
    exact Nat.succ_le_succ hc.given
  · rw [hpending]
    exact congrArg (· + 1) (hc.all hup)

/-- A move of the producer on its call. -/
theorem Stands.act (hs : h.Stands ahead y z e) (hact : h.Act h') : h'.Stands ahead y z e := by
  obtain ⟨hahead, hgraphics, haudio, hallows, hthread, haudioThread, hcounted⟩ := hs
  cases hact with
  | frameRefused phase graphics gone =>
    rw [phase] at hallows hgraphics haudio
    -- The phase leaves one errand only, so the doors are known from here on.
    cases hallows
    rw [graphics] at hgraphics
    exact ⟨hahead, graphics ▸ hgraphics.refused gone, haudio,
      .refused (hgraphics.isUp_of_gone gone),
      nofun, nofun, hcounted⟩
  | waits phase graphics =>
    rw [phase] at hallows hgraphics haudio hthread
    cases hallows
    exact ⟨hahead, hgraphics, haudio, .pushing, hthread, nofun, hcounted⟩
  | @pushes frame _ lane queue delivery phase graphics taken =>
    rw [phase] at hallows hgraphics haudio
    cases hallows
    rw [graphics] at hgraphics
    have hcounted : ∀ l, Outlet.queued { lane with queue } = Outlet.queued l →
        Counted h.completions.submit l :=
      fun l hl => Outlet.queued.inj hl ▸ (hcounted lane graphics).taken taken
    rcases pushed_phase h delivery with hphase | hphase
    · exact ⟨hahead, hphase ▸ hgraphics.taken taken, hphase ▸ haudio, hphase ▸ .awaiting,
        fun _ => rfl, fun hp => absurd (hphase ▸ hp) nofun, hcounted⟩
    · exact ⟨hahead, hphase ▸ hgraphics.taken taken, hphase ▸ haudio, hphase ▸ .settling,
        fun _ => rfl, fun hp => absurd (hphase ▸ hp) nofun, hcounted⟩
  | hears phase graphics channel =>
    exact ⟨hahead, hgraphics, haudio, hallows, hthread, haudioThread,
      fun l hl => (hcounted l hl).hear channel⟩
  | abandoned phase graphics gone =>
    rw [phase] at hallows hgraphics haudio
    cases hallows
    exact ⟨hahead, hgraphics, haudio, .refused ((graphics ▸ hgraphics).isUp_of_gone gone), nofun,
      nofun, hcounted⟩
  | awaited late phase graphics =>
    rw [phase] at hallows hgraphics haudio hthread
    cases hallows
    exact ⟨hahead, hgraphics, haudio, .settling, hthread, nofun, hcounted⟩
  | settles phase graphics =>
    rw [phase] at hallows hgraphics haudio
    cases hallows
    exact ⟨hahead, hgraphics, haudio, .handed, nofun, nofun, hcounted⟩
  | packetRefused phase audio gone =>
    rw [phase] at hallows hgraphics haudio
    cases hallows
    rw [audio] at haudio
    exact ⟨hahead, hgraphics, audio ▸ haudio.refused gone, .mixed, nofun, nofun, hcounted⟩
  | mixes phase audio taken =>
    rw [phase] at hallows hgraphics haudio
    cases hallows
    rw [audio] at haudio
    exact ⟨hahead, hgraphics, haudio.taken taken, .mixed, nofun, nofun, hcounted⟩

/-- Nobody but the producer decides what the stages will have made of everything. -/
theorem Stands.turn (hs : h.Stands ahead y z e) {t : Turn} (hturn : h.turn t = some h') :
    h'.Stands ahead y z e := by
  cases t with
  | producer late => exact hs.act (act_cases hturn)
  | graphics =>
    obtain ⟨o, ho, rfl⟩ := Option.map_eq_some_iff.1 hturn
    exact hs.graphicsTurn ho
  | audio =>
    obtain ⟨o, ho, rfl⟩ := Option.map_eq_some_iff.1 hturn
    exact hs.audioTurn ho

/-- Between calls nobody moves but the stages. -/
theorem Stands.turn_cases (hs : h.Stands ahead y z e) (he : ∀ call, e ≠ .call call) {t : Turn}
    (hturn : h.turn t = some h') :
    (∃ o, h.graphics.act = some o ∧
      h' = { h with graphics := o, completions := h.completions.send h.graphics.word }) ∨
      ∃ o, h.audio.act = some o ∧ h' = { h with audio := o } := by
  cases t with
  | producer late =>
    obtain ⟨r, hphase⟩ := hs.allows.exists_free he
    have hnone : h.turn (.producer late) = none := by rw [Handoff.turn, Handoff.act.eq_def, hphase]
    rw [hnone] at hturn
    exact absurd hturn nofun
  | graphics =>
    obtain ⟨o, ho, rfl⟩ := Option.map_eq_some_iff.1 hturn
    exact .inl ⟨o, ho, rfl⟩
  | audio =>
    obtain ⟨o, ho, rfl⟩ := Option.map_eq_some_iff.1 hturn
    exact .inr ⟨o, ho, rfl⟩

/-! ## Calls -/

/-- The beginning of a call. -/
def begin (h : Handoff γ α) : Call → Handoff γ α
  | .frame f => h.beginFrame f
  | .audio p => h.beginAudio p

omit [Sink AudioPacket α] in
/-- The workers put tags on a frame and do nothing else to the call. -/
theorem beginFrame_eq (h : Handoff γ α) (frame : Frame) :
    ∃ workers, h.beginFrame frame = ({ h with workers }).handFrame (frame.handed h.tagsAhead) ∧
      ({ h with workers } : Handoff γ α).tagsAhead = h.tagsAhead := by
  rw [beginFrame]
  cases htags : h.tagsAhead with
  | false => exact ⟨h.workers, if_neg (by rw [← tagsAhead, htags]; exact Bool.false_ne_true), htags⟩
  | true =>
    rw [tagsAhead, Bool.and_eq_true] at htags
    obtain ⟨workers, hworkers, hopen⟩ :=
      frame.tagLists_eq (Workers.takes_of_isThreaded htags.2)
    refine ⟨workers, ?_, by rw [tagsAhead, htags.1]; exact hopen.trans htags.2⟩
    rw [htags.1, htags.2, hworkers]
    rfl

omit [Sink AudioPacket α] in
/-- A frame for a stage on its own thread is pushed. -/
theorem handFrame_queued {lane : Lane Frame γ} (hg : h.graphics = .queued lane) (f : Frame) :
    h.handFrame f = { h with phase := .pushing f false } := by
  simp only [handFrame, hg]

omit [Sink Frame γ] in
/-- A packet for a stage on its own thread is pushed. -/
theorem beginAudio_queued {lane : Lane AudioPacket α} (ha : h.audio = .queued lane)
    (p : AudioPacket) : h.beginAudio p = { h with phase := .mixing p } := by
  simp only [beginAudio, ha]

omit [Sink Frame γ] in
/-- A packet for a stage on the producer's thread is served at once. -/
theorem beginAudio_direct {s : Stage α} (ha : h.audio = .direct s) (p : AudioPacket) :
    h.beginAudio p =
      ({ h with audio := .direct (s.serve p), counts := h.counts.audio }).give (.ok ()) := by
  simp only [beginAudio, ha]

omit [Sink AudioPacket α] in
/-- A stage without a thread of its own serves a frame in the call. The call fails just when the
stage is down behind it. -/
theorem handFrame_direct {s : Stage γ} (hg : h.graphics = .direct s) (f : Frame) :
    ∃ counts result,
      h.handFrame f = ({ h with graphics := .direct (s.serve f), counts }).give result ∧
      Allows (s.serve f) (.call (.frame f)) (.free result) := by
  have hcall : h.handFrame f = h.serveFrame s f := by simp only [handFrame, hg]
  rw [hcall, serveFrame]
  split
  · dsimp only
    cases hserved : (s.serve f).isUp with
    | true => exact ⟨h.counts.submit.complete, .ok (), if_pos rfl, .handed⟩
    | false =>
      exact ⟨h.counts.submit, .error .graphicsStopped, if_neg Bool.false_ne_true, .refused hserved⟩
  · next hdown =>
    rw [Stage.serve_of_down (Bool.eq_false_iff.2 hdown), ← hg]
    exact ⟨h.counts, _, rfl, .refused (Bool.eq_false_iff.2 hdown)⟩

/-- Handing a frame in is like serving it, as far as the frame gets. -/
theorem Stands.handFrame (hs : h.Stands ahead y z .idle) (frame f : Frame) :
    (h.handFrame f).Stands ahead (y.serve f) z (.call (.frame frame)) := by
  obtain ⟨hahead, hgraphics, haudio, hallows, -, -, hcounted⟩ := hs
  cases hg : h.graphics with
  | queued lane =>
    rw [handFrame_queued hg]
    rw [hg] at hgraphics
    exact ⟨hahead, hg ▸ hgraphics.offer f, haudio, .pushing, fun _ => hg ▸ rfl, nofun, hcounted⟩
  | direct stage =>
    obtain ⟨counts, result, hcall, hresult⟩ := handFrame_direct hg f
    rw [hg] at hgraphics
    obtain rfl : stage = y := by cases hgraphics; rfl
    rw [hcall]
    exact ⟨hahead, hgraphics.serve f, haudio, hresult.free_frame, nofun, nofun, nofun⟩

/-- A call adds its frame, or its packet, to what the stages will have served. -/
theorem Stands.begin (hs : h.Stands ahead y z .idle) (call : Call) :
    (h.begin call).Stands ahead ((Call.frames ahead [call]).foldl Stage.serve y)
      ((Call.packets [call]).foldl Stage.serve z) (.call call) := by
  cases call with
  | frame f =>
    obtain ⟨workers, hcall, htags⟩ := beginFrame_eq h f
    have hs' : ({ h with workers } : Handoff γ α).Stands ahead y z .idle :=
      { hs with ahead_eq := htags.trans hs.ahead_eq }
    rw [Handoff.begin, hcall, hs.ahead_eq]
    exact hs'.handFrame f _
  | audio p =>
    obtain ⟨hahead, hgraphics, haudio, hallows, -, -, hcounted⟩ := hs
    cases ha : h.audio with
    | queued lane =>
      rw [Handoff.begin, beginAudio_queued ha]
      rw [ha] at haudio
      exact ⟨hahead, hgraphics, ha ▸ haudio.offer p, .mixing, nofun, fun _ => ha ▸ rfl, hcounted⟩
    | direct stage =>
      rw [Handoff.begin, beginAudio_direct ha]
      rw [ha] at haudio
      exact ⟨hahead, hgraphics, haudio.serve p, .mixed, nofun, nofun, hcounted⟩

/-! ## Beginning and end -/

/-- At the start nothing was handed in. -/
theorem stands_ofSettings (t : Settings.Threading) (processors : Nat) (g : γ) (a : α) :
    (ofSettings t processors g a).Stands t.tagsAhead { sink := g } { sink := a } .idle where
  ahead_eq := by
    cases hworkers : t.useWorkers <;>
      simp [tagsAhead, ofSettings, Settings.Threading.tagsAhead, hworkers, Workers.inline,
        Workers.ofCount, Workers.isThreaded]
  graphics := Outlet.leadsTo_start _ _ _
  audio := Outlet.leadsTo_start _ _ _
  allows := .idle
  graphicsThread hphase := by cases hphase
  audioThread hphase := by cases hphase
  counted lane hlane := by
    have hlane : Outlet.start t.asyncGraphics t.graphicsDepth.toNat g = .queued lane := hlane
    rw [Outlet.start] at hlane
    split at hlane
    · exact Outlet.queued.inj hlane ▸ ⟨⟨Nat.le_refl _, rfl⟩, Nat.le_refl _, fun _ => rfl⟩
    · cases hlane

/-- The producer hears how its call ended. -/
theorem Stands.answer {call : Call} {r : Except PacingError Unit}
    (hs : h.Stands ahead y z (.call call)) (hphase : h.phase = .free r) :
    h.Stands ahead y z .idle := by
  obtain ⟨hahead, hgraphics, haudio, -, hthread, haudioThread, hcounted⟩ := hs
  rw [hphase] at hgraphics haudio
  exact ⟨hahead, hgraphics, haudio, hphase ▸ .idle, hthread, haudioThread, hcounted⟩

/-- No further frame comes, and the stage may go. -/
theorem Stands.hangUpGraphics (hs : h.Stands ahead y z .idle) :
    ({ h with graphics := h.graphics.hangUp } : Handoff γ α).Stands ahead y z .joinGraphics := by
  obtain ⟨hahead, hgraphics, haudio, hallows, -, haudioThread, hcounted⟩ := hs
  obtain ⟨r, hphase⟩ := hallows.exists_free nofun
  refine ⟨hahead, hgraphics.hangUp, haudio, hphase ▸ .joinGraphics, fun hp => ?_, haudioThread, ?_⟩
  · exact absurd (hphase ▸ hp) nofun
  · intro lane hlane
    cases hg : h.graphics with
    | direct => exact absurd (hg ▸ hlane) nofun
    | queued l =>
      rw [hg] at hlane
      have hl := hcounted l hg
      exact Outlet.queued.inj hlane ▸ ⟨hl.tells, hl.given, hl.all⟩

/-- No further packet comes, and the stage may go. -/
theorem Stands.hangUpAudio (hs : h.Stands ahead y z .joinGraphics) :
    ({ h with audio := h.audio.hangUp } : Handoff γ α).Stands ahead y z .joinAudio := by
  obtain ⟨hahead, hgraphics, haudio, hallows, hthread, -, hcounted⟩ := hs
  obtain ⟨r, hphase⟩ := hallows.exists_free nofun
  exact ⟨hahead, hgraphics, haudio.hangUp, hphase ▸ .joinAudio, hthread,
    fun hp => absurd (hphase ▸ hp) nofun, hcounted⟩

/-- Behind the end of the graphics thread the producer receives what the thread has said. -/
theorem Stands.hear (hs : h.Stands ahead y z e) {done : Nat} {rest : List Nat}
    (channel : h.completions.channel = done :: rest) : (h.hear done).Stands ahead y z e where
  ahead_eq := hs.ahead_eq
  graphics := hs.graphics
  audio := hs.audio
  allows := hs.allows
  graphicsThread := hs.graphicsThread
  audioThread := hs.audioThread
  counted l hl := (hs.counted l hl).hear channel

omit [Sink Frame γ] [Sink AudioPacket α] in
/-- Hearing changes what the producer knows, and nothing else. -/
theorem hearAll_keeps (h : Handoff γ α) :
    ∃ completions counts, h.hearAll = { h with completions, counts } := by
  rw [hearAll]
  generalize h.completions.channel = channel
  induction channel generalizing h with
  | nil => exact ⟨h.completions, h.counts, rfl⟩
  | cons done rest ih => exact ih (h.hear done)

/-- When both stages are gone, the errands are done. -/
theorem Stands.finish (hs : h.Stands ahead y z .joinAudio) : h.Stands ahead y z .done := by
  obtain ⟨hahead, hgraphics, haudio, hallows, hthread, haudioThread, hcounted⟩ := hs
  obtain ⟨r, hphase⟩ := hallows.exists_free nofun
  exact ⟨hahead, hgraphics, haudio, hphase ▸ .done, hthread, haudioThread, hcounted⟩

/-- Shutdown serves what is on its way, and reports on what the stages have become. -/
theorem Stands.shutdown (hs : h.Stands ahead y z e) (he : ∀ call, e ≠ .call call) :
    h.shutdown.1.graphics.stage = y.finish ∧ h.shutdown.1.audio.stage = z.finish ∧
      h.shutdown.2.frames = y.finish.account ∧ h.shutdown.2.error = y.finish.error? ∧
      h.shutdown.2.packets = z.finish.account := by
  have hgraphics : h.graphics.close.stage = y.finish := by
    refine hs.graphics.close_stage ?_
    cases e with
    | idle => exact .inl rfl
    | joinGraphics | joinAudio | done => exact .inr rfl
    | call k => exact absurd rfl (he k)
  have haudio : h.audio.close.stage = z.finish := by
    refine hs.audio.close_stage ?_
    cases e with
    | idle | joinGraphics => exact .inl rfl
    | joinAudio | done => exact .inr rfl
    | call k => exact absurd rfl (he k)
  obtain ⟨completions, counts, hheard⟩ := hearAll_keeps
    ({ h with
      graphics := h.graphics.close
      completions := h.completions.send h.graphics.words } : Handoff γ α)
  rw [Handoff.shutdown, hheard]
  exact ⟨hgraphics, haudio, congrArg Stage.account hgraphics, congrArg Stage.error? hgraphics,
    congrArg Stage.account haudio⟩

/-! ## Without threads -/

omit [Sink AudioPacket α] in
/-- Handing a frame in moves no stage to another thread. -/
theorem isQueued_handFrame (h : Handoff γ α) (f : Frame) :
    (h.handFrame f).graphics.isQueued = h.graphics.isQueued ∧
      (h.handFrame f).audio.isQueued = h.audio.isQueued := by
  cases hg : h.graphics with
  | queued lane =>
    rw [handFrame_queued hg]
    exact ⟨congrArg Outlet.isQueued hg, rfl⟩
  | direct stage =>
    obtain ⟨counts, result, hcall, -⟩ := handFrame_direct hg f
    rw [hcall]
    exact ⟨rfl, rfl⟩

omit [Sink Frame γ] in
/-- Handing a packet in moves no stage to another thread. -/
theorem isQueued_beginAudio (h : Handoff γ α) (p : AudioPacket) :
    (h.beginAudio p).graphics.isQueued = h.graphics.isQueued ∧
      (h.beginAudio p).audio.isQueued = h.audio.isQueued := by
  cases ha : h.audio with
  | queued lane =>
    rw [beginAudio_queued ha]
    exact ⟨rfl, congrArg Outlet.isQueued ha⟩
  | direct stage =>
    rw [beginAudio_direct ha]
    exact ⟨rfl, rfl⟩

/-- No call moves a stage to another thread. -/
theorem isQueued_begin (h : Handoff γ α) (call : Call) :
    (h.begin call).graphics.isQueued = h.graphics.isQueued ∧
      (h.begin call).audio.isQueued = h.audio.isQueued := by
  cases call with
  | frame f =>
    obtain ⟨workers, hcall, -⟩ := beginFrame_eq h f
    rw [begin, hcall]
    exact isQueued_handFrame { h with workers } _
  | audio p => exact isQueued_beginAudio h p

/-- Without threads a call is over as soon as it has begun. -/
theorem Stands.begin_direct (hs : h.Stands ahead y z .idle) (hg : h.graphics.isQueued = false)
    (ha : h.audio.isQueued = false) (call : Call) :
    (h.begin call).Stands ahead ((Call.frames ahead [call]).foldl Stage.serve y)
      ((Call.packets [call]).foldl Stage.serve z) .idle := by
  have hcall := hs.begin call
  obtain ⟨hgraphics, haudio⟩ := isQueued_begin h call
  cases hphase : (h.begin call).phase with
  | free r => exact hcall.answer hphase
  | pushing | awaiting | settling =>
    have hthread := hcall.graphicsThread (by rw [hphase]; rfl)
    exact absurd (hg.symm.trans (hgraphics.symm.trans hthread)) Bool.false_ne_true
  | mixing =>
    have hthread := hcall.audioThread (by rw [hphase]; rfl)
    exact absurd (ha.symm.trans (haudio.symm.trans hthread)) Bool.false_ne_true

/-- With both stages on the producer's thread, calls are served one by one. -/
theorem Stands.calls_direct (hs : h.Stands ahead y z .idle) (hg : h.graphics.isQueued = false)
    (ha : h.audio.isQueued = false) (calls : List Call) :
    (calls.foldl Handoff.begin h).Stands ahead ((Call.frames ahead calls).foldl Stage.serve y)
      ((Call.packets calls).foldl Stage.serve z) .idle := by
  induction calls generalizing h y z with
  | nil => exact hs
  | cons call rest ih =>
    obtain ⟨hgraphics, haudio⟩ := isQueued_begin h call
    have hrest := ih (hs.begin_direct hg ha call) (hgraphics.trans hg) (haudio.trans ha)
    rwa [← List.foldl_append, ← List.foldl_append, ← Call.frames_append, ← Call.packets_append]
      at hrest

end Handoff

end RenderStream
