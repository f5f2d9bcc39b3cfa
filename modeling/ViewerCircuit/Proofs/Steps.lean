import ViewerCircuit.Proofs.Deeds

/-!
# What a step does

Every step of a circuit, said once: a step that is not enabled does nothing, a call is a sequence of
deeds, settings are exchanged, and an attendant or a timer does its part where it stands. What a
step keeps, or shows of itself, is proved by cases of this.
-/
namespace ViewerCircuit

/-- A packet that the event hands over is plain or `given`. Acks that it tells are told in a packet
that is `given`. -/
def Event.Gives (given : Packet → Prop) (e : Event) : Prop :=
  (∀ p category, e = .send p category → p.IsPlain ∨ given p) ∧
    ∀ ids, e = .tell (.acks ids) → given (Outbound.acks ids).packet

theorem Event.gives_any (e : Event) : e.Gives fun _ => True :=
  ⟨fun _ _ _ => .inr trivial, fun _ _ => trivial⟩

namespace Site

variable {given : Packet → Prop} {pauses ends : Prop} {conduct : Conduct}

inductive Performed (given : Packet → Prop) (pauses ends : Prop) (conduct : Conduct)
    (s : Site) : Event → Site → Prop
  | idle {e} : Performed given pauses ends conduct s e s
  | start : Performed given pauses ends conduct s .start
      (s.update fun c => { c with attendants := c.attendants ++ [{}] })
  | verdict {i verdict} (hs : s.circuit.stage? i = some .authenticating) :
    Performed given pauses ends conduct s (.authenticated i verdict) (s.onVerdict i verdict)
  | joined {i} (hs : s.circuit.stage? i = some .joining) :
    Performed given pauses ends conduct s (.joined i) (s.onJoined i)
  | serve {i now linkUp} (hs : s.circuit.stage? i = some .serving)
      (hg : conduct.Gives given pauses) :
    Performed given pauses ends conduct s (.serve i now linkUp) (s.serve conduct i now linkUp)
  | finish {i joined} (hs : s.circuit.stage? i = some (.finishing joined)) :
    Performed given pauses ends conduct s (.finish i) (s.beginFlush i joined)
  | flush {i now linkUp joined o rest}
      (hs : s.circuit.stage? i = some (.flushing joined (o :: rest))) :
    Performed given pauses ends conduct s (.flush i now linkUp)
      (s.flushNext i now linkUp joined o rest)
  | leave {i joined} (hs : s.circuit.stage? i = some (.flushing joined []))
      (hq : s.circuit.TimersStopped i) :
    Performed given pauses ends conduct s (.leave i) (s.leave i joined)
  | ackTick {i now} (hr : s.circuit.AckTimerRuns i) :
    Performed given pauses ends conduct s (.ackTick i now) (s.ackTick now)
  | heard {i} : Performed given pauses ends conduct s (.probe i)
      (s.update fun c => { c with heard := false, probeFailures := 0 })
  | silent {i u}
      (does : Does given pauses ends
        (s.update fun c => { c with probeFailures := c.probeFailures + 1 }) u) :
    Performed given pauses ends conduct s (.probe i) u
  | stopAckTimer {i} (hr : s.circuit.AckTimerRuns i) :
    Performed given pauses ends conduct s (.stopAckTimer i)
      (s.update (·.withAttendant i ({ · with ackTimer := .stopped })))
  | stopProbeTimer {i} : Performed given pauses ends conduct s (.stopProbeTimer i)
      (s.update (·.withAttendant i ({ · with probeTimer := .stopped })))
  | turnAway {p} : Performed given pauses ends conduct s (.receive p) (s.recycle p)
  | accept {p} (hopen : s.circuit.phase.isEnding = false) :
    Performed given pauses ends conduct s (.receive p)
      ((s.update fun c => { c with queue := c.queue.deliver p }).emit (.accepted p))
  | call {e u} (does : Does given pauses ends s u) : Performed given pauses ends conduct s e u
  | settings {e blocked proxy startPosition handlers defaults subscribers} :
    Performed given pauses ends conduct s e (s.update fun c => { c with
      blocked, proxy, startPosition, handlers, defaults, subscribers })

theorem shutdown_does (s : Site) : Does given pauses ends s s.shutdown := by
  unfold shutdown
  dsimp only
  split
  · exact close_does _ s
  · exact (tell_does (by simp) s).trans (close_does _ _)

theorem probe_performed (i : AttendantId) (s : Site) :
    Performed given pauses ends conduct s (.probe i) s.probe := by
  unfold probe
  split
  · exact .heard
  · refine .silent ?_
    dsimp only
    split
    · exact close_does _ _
    · exact startPing_does _

theorem receive_performed (p : Packet) (s : Site) :
    Performed given pauses ends conduct s (.receive p) (s.receive p) := by
  unfold receive
  split
  · exact .turnAway
  · next hopen => exact .accept (Bool.eq_false_iff.2 hopen)

theorem next_performed {e : Event} (hc : conduct.Gives given pauses) (hg : e.Gives given)
    (s : Site) :
    Performed given pauses ends conduct s e (s.next conduct e).2 := by
  unfold next
  split
  case isFalse => exact .idle
  case isTrue enabled =>
  cases e with
  | start => exact .start
  | authenticated i verdict => exact .verdict enabled
  | joined i => exact .joined enabled
  | serve i now linkUp => exact .serve enabled hc
  | finish i =>
    unfold perform
    dsimp only
    split
    · next hs => exact .finish hs
    · exact .idle
  | flush i now linkUp =>
    unfold perform
    dsimp only
    split
    · next hs => exact .flush hs
    · exact .idle
  | leave i =>
    unfold perform
    dsimp only
    split
    · next hs => exact .leave hs enabled.2
    · exact .idle
  | ackTick i now => exact .ackTick enabled
  | probe i => exact probe_performed i s
  | stopAckTimer i => exact .stopAckTimer enabled.1
  | stopProbeTimer i => exact .stopProbeTimer
  | receive p => exact receive_performed p s
  | send p category => exact .call (.of_deed (.send (hg.1 p category rfl)))
  | tell notice => exact .call (tell_does (fun ids h => hg.2 ids (congrArg _ h)) s)
  | startPing => exact .call (startPing_does s)
  | close reason => exact .call (close_does reason s)
  | kick reason => exact .call (kick_does reason s)
  | shutdown => exact .call (shutdown_does s)
  | applyThrottles block now => exact .call (applyThrottles_does block now s)
  | setBlocked | setProxy | setStartPosition | addHandler | addDefault | subscribe =>
    exact .settings

end Site
end ViewerCircuit
