import Eggplant.Error
import Eggplant.Lib.Runs

/-!
# The liveness protocol

A socket sends the text PING on every tick of an interval and expects the text PONG.
Ticks and frames are seen only inside `next_text`, so a caller that is slow to come
back, or slow to drain its frames, looks like a silent venue. Instants and durations
are in nanoseconds.
-/
namespace Eggplant.Ws

set_option autoImplicit false

open Eggplant.Lib.Runs

/-- `Duration::from_secs`. -/
def fromSecs (secs : Nat) : Nat := secs * 10 ^ 9

def pingInterval : Nat := fromSecs 10

def pongTimeout : Nat := fromSecs 30

/-- `frames::PONG`. -/
def pong : String := "PONG"

/-- A timer that bursts: a missed tick stays due, and the next one counts from it. -/
structure Interval where
  period : Nat
  deadline : Nat

def Interval.tick (i : Interval) : Interval := { i with deadline := i.deadline + i.period }

/-- What the socket hands over: a text, a close or the end, another opcode, or an error. -/
inductive Frame where
  | text (text : String)
  | close
  | other
  | failed (e : String)
  deriving DecidableEq

/-- What `next_text` returns. -/
abbrev NextText := Except Error (Option String)

def halfOpen : Error := .ws "PONG timeout (half-open socket)"

/-- The transport's errors carry other texts. -/
theorem ws_ne_halfOpen {text : String} (h : text.toList.head?.any (fun c => c ≠ 'P') = true)
    (e : String) : Error.ws (text ++ e) ≠ halfOpen := by
  intro heq
  have htext := congrArg (fun t => t.toList.head?) (Error.ws.inj heq)
  simp only [String.toList_append] at htext
  cases hlist : text.toList with
  | nil =>
    rw [hlist] at h
    cases h
  | cons c rest =>
    rw [hlist] at h htext
    have hc : c = 'P' := Option.some.inj htext
    exact of_decide_eq_true h hc

structure LiveSocket where
  ping : Interval
  lastPong : Nat

namespace LiveSocket

def connect (now : Nat) : LiveSocket := ⟨⟨pingInterval, now⟩, now⟩

/-- The tick branch of the loop; `none` when the loop goes on, and then a PING was sent. -/
def onTick (socket : LiveSocket) (now : Nat) (sent : Except String Unit) :
    LiveSocket × Option NextText :=
  let socket := { socket with ping := socket.ping.tick }
  if pongTimeout < now - socket.lastPong then (socket, some (.error halfOpen))
  else
    match sent with
    | .ok () => (socket, none)
    | .error e => (socket, some (.error (.ws ("ping failed: " ++ e))))

/-- The frame branch of the loop. -/
def onFrame (socket : LiveSocket) (now : Nat) : Frame → LiveSocket × Option NextText
  | .text text =>
    if text = pong then ({ socket with lastPong := now }, none) else (socket, some (.ok (some text)))
  | .close => (socket, some (.ok none))
  | .other => (socket, none)
  | .failed e => (socket, some (.error (.ws ("read failed: " ++ e))))

end LiveSocket

/-! ## Sessions -/

/-- The caller is elsewhere, inside `next_text`, or done with the socket after an error. -/
inductive Phase where
  | away
  | polling
  | dropped
  deriving DecidableEq

/-- A socket with its clock, its caller and its venue. -/
structure Session where
  now : Nat
  socket : LiveSocket
  /-- Frames received and not read, each with its arrival. -/
  inbox : List (Nat × Frame)
  /-- When each unanswered PING was sent, the earliest first. -/
  unanswered : List Nat
  phase : Phase
  /-- What the calls returned, the latest first. -/
  returned : List NextText

inductive Event where
  | wait (d : Nat)
  | call
  | tick (sent : Except String Unit)
  | read
  | receive (frame : Frame)
  | answer (ping : Nat)

namespace Session

def connect (now : Nat) : Session := ⟨now, .connect now, [], [], .away, []⟩

/-- The loop goes on, or the call returns; on an error the caller drops the socket. -/
def proceed (s : Session) (branch : LiveSocket × Option NextText) : Session :=
  match branch.2 with
  | none => { s with socket := branch.1 }
  | some (.ok text) =>
    { s with socket := branch.1, phase := .away, returned := .ok text :: s.returned }
  | some (.error e) =>
    { s with socket := branch.1, phase := .dropped, returned := .error e :: s.returned }

/-- One event. Either ready branch of the `select!` may be taken; time passes no further than
one ping interval after an unanswered PING; only the venue's answers are PONGs. -/
def step (s : Session) : Event → Option Session
  | .wait d =>
    if ∀ ping ∈ s.unanswered, s.now + d ≤ ping + pingInterval then
      some { s with now := s.now + d }
    else none
  | .call => if s.phase = .away then some { s with phase := .polling } else none
  | .tick sent =>
    if s.phase = .polling ∧ s.socket.ping.deadline ≤ s.now then
      let branch := s.socket.onTick s.now sent
      some (proceed { s with
        unanswered := s.unanswered ++ if branch.2.isNone then [s.now] else [] } branch)
    else none
  | .read =>
    match s.phase, s.inbox with
    | .polling, (_, frame) :: inbox =>
      some (proceed { s with inbox := inbox } (s.socket.onFrame s.now frame))
    | _, _ => none
  | .receive frame =>
    if frame = .text pong then none else some { s with inbox := s.inbox ++ [(s.now, frame)] }
  | .answer ping =>
    if ping ∈ s.unanswered then
      some { s with
        unanswered := s.unanswered.erase ping, inbox := s.inbox ++ [(s.now, .text pong)] }
    else none

/-- A tick is taken at most `a` after it is due, with no PONG unread for more than `b`. -/
def Prompt (a b : Nat) (s : Session) : Event → Prop
  | .tick _ => s.now ≤ s.socket.ping.deadline + a ∧
      ∀ f ∈ s.inbox, f.2 = .text pong → s.now ≤ f.1 + b
  | _ => True

/-! ## What a session keeps -/

/-- The PING sent at `sent` is unanswered, its PONG waits to be read, or one was read since. -/
def Covered (s : Session) (sent : Nat) : Prop :=
  sent ∈ s.unanswered ∨
    (∃ f ∈ s.inbox, f.2 = .text pong ∧ sent ≤ f.1 ∧ f.1 ≤ sent + pingInterval) ∨
    sent ≤ s.socket.lastPong

/-- `start` is the instant of the connection, `a` the most a tick is late. -/
structure Inv (start a : Nat) (s : Session) : Prop where
  start_le : start ≤ s.socket.lastPong
  pong_le : s.socket.lastPong ≤ s.now
  inbox_le : ∀ f ∈ s.inbox, f.1 ≤ s.now
  unanswered_le : ∀ sent ∈ s.unanswered, sent ≤ s.now ∧ s.now ≤ sent + pingInterval
  period_eq : s.socket.ping.period = pingInterval
  /-- Every tick so far sent a PING in time, and the PING is accounted for. -/
  ticks : s.phase ≠ .dropped → ∃ n, s.socket.ping.deadline = start + n * pingInterval ∧
    ∀ k < n, ∃ sent, start + k * pingInterval ≤ sent ∧ sent ≤ start + k * pingInterval + a ∧
      s.Covered sent
  quiet : .error halfOpen ∉ s.returned

theorem inv_connect (start a : Nat) : Inv start a (connect start) where
  start_le := Nat.le_refl start
  pong_le := Nat.le_refl start
  inbox_le := nofun
  unanswered_le := nofun
  period_eq := rfl
  ticks := fun _ => ⟨0, (Nat.zero_mul pingInterval ▸ Nat.add_zero start).symm, nofun⟩
  quiet := nofun

section
variable {start a b : Nat} {s : Session}

/-- A PING whose PONG must have been read by now was followed by a PONG. -/
theorem Covered.read {sent : Nat} (h : s.Covered sent) (hs : Inv start a s)
    (hpong : ∀ f ∈ s.inbox, f.2 = .text pong → s.now ≤ f.1 + b)
    (hlate : sent + pingInterval + b < s.now) : sent ≤ s.socket.lastPong := by
  rcases h with hun | ⟨f, hf, htext, _, hle⟩ | hread
  · have hdue := (hs.unanswered_le sent hun).2
    omega
  · have hwait := hpong f hf htext
    omega
  · exact hread

/-- With prompt ticks and prompt reads a PONG was read within the deadline. -/
theorem Inv.heard (hs : Inv start a s) (hab : a + b ≤ pingInterval ∨ a = 0 ∧ b < 2 * pingInterval)
    (hphase : s.phase ≠ .dropped) (hdue : s.socket.ping.deadline ≤ s.now)
    (hprompt : s.now ≤ s.socket.ping.deadline + a)
    (hpong : ∀ f ∈ s.inbox, f.2 = .text pong → s.now ≤ f.1 + b) :
    s.now ≤ s.socket.lastPong + pongTimeout := by
  obtain ⟨n, hdeadline, hticks⟩ := hs.ticks hphase
  have hstart := hs.start_le
  have hthree : pongTimeout = 3 * pingInterval := rfl
  have hpos : 0 < pingInterval := by decide
  by_cases hfirst : n < 3
  · -- too early for any deadline
    have hn : n * pingInterval ≤ 2 * pingInterval := Nat.mul_le_mul_right _ (by omega)
    omega
  · obtain ⟨m, rfl⟩ := Nat.exists_eq_add_of_le (Nat.le_of_not_lt hfirst)
    have hlast : (3 + m) * pingInterval = m * pingInterval + 3 * pingInterval := by ring
    have hmid : (m + 1) * pingInterval = m * pingInterval + pingInterval := by ring
    by_cases hexact : s.now = s.socket.ping.deadline
    · -- the PING of three ticks ago
      obtain ⟨sent, hge, hle, hcovered⟩ := hticks m (by omega)
      have hread := hcovered.read hs hpong (by omega)
      omega
    · -- the PING of two ticks ago
      obtain ⟨sent, hge, hle, hcovered⟩ := hticks (m + 1) (by omega)
      have hread := hcovered.read hs hpong (by omega)
      omega

/-- The venue and the clock keep what the caller has seen. -/
theorem Covered.of_arrival {sent : Nat} {f : Nat × Frame} (h : s.Covered sent) :
    Covered { s with inbox := s.inbox ++ [f] } sent := by
  rcases h with hun | ⟨g, hg, htext, hge, hle⟩ | hread
  · exact .inl hun
  · exact .inr (.inl ⟨g, List.mem_append_left _ hg, htext, hge, hle⟩)
  · exact .inr (.inr hread)

theorem Covered.of_answer {sent ping : Nat} (hs : Inv start a s) (h : s.Covered sent) :
    Covered { s with
      unanswered := s.unanswered.erase ping, inbox := s.inbox ++ [(s.now, .text pong)] } sent := by
  rcases h with hun | ⟨g, hg, htext, hge, hle⟩ | hread
  · obtain ⟨hge, hle⟩ := hs.unanswered_le sent hun
    exact .inr (.inl ⟨(s.now, .text pong), List.mem_append_right _ (List.mem_singleton.mpr rfl),
      rfl, hge, hle⟩)
  · exact .inr (.inl ⟨g, List.mem_append_left _ hg, htext, hge, hle⟩)
  · exact .inr (.inr hread)

/-- The ticks' PINGs stay accounted for while covered ones stay covered. -/
theorem Inv.keep_ticks (hs : Inv start a s) (hphase : s.phase ≠ .dropped) {s' : Session}
    (hcovered : ∀ sent, s.Covered sent → s'.Covered sent) :
    ∃ n, s.socket.ping.deadline = start + n * pingInterval ∧
      ∀ k < n, ∃ sent, start + k * pingInterval ≤ sent ∧ sent ≤ start + k * pingInterval + a ∧
        s'.Covered sent := by
  obtain ⟨n, hdeadline, hticks⟩ := hs.ticks hphase
  refine ⟨n, hdeadline, fun k hk => ?_⟩
  obtain ⟨sent, hge, hle, hsent⟩ := hticks k hk
  exact ⟨sent, hge, hle, hcovered sent hsent⟩

theorem Inv.arrival_le (hs : Inv start a s) {frame : Frame} :
    ∀ f ∈ s.inbox ++ [(s.now, frame)], f.1 ≤ s.now := by
  intro f hf
  cases List.mem_append.mp hf with
  | inl hin => exact hs.inbox_le f hin
  | inr hnew => rw [List.mem_singleton.mp hnew]

/-- An answered PING stays covered by its PONG. -/
theorem Inv.answer (hs : Inv start a s) (ping : Nat) :
    Inv start a { s with
      unanswered := s.unanswered.erase ping, inbox := s.inbox ++ [(s.now, .text pong)] } :=
  { hs with
    inbox_le := hs.arrival_le
    unanswered_le := fun sent hsent => hs.unanswered_le sent (List.mem_of_mem_erase hsent)
    ticks := fun hphase => hs.keep_ticks hphase fun _ hsent => hsent.of_answer hs }

theorem Inv.receive (hs : Inv start a s) (frame : Frame) :
    Inv start a { s with inbox := s.inbox ++ [(s.now, frame)] } :=
  { hs with
    inbox_le := hs.arrival_le
    ticks := fun hphase => hs.keep_ticks hphase fun _ hsent => hsent.of_arrival }

theorem Inv.wait (hs : Inv start a s) {d : Nat}
    (hd : ∀ ping ∈ s.unanswered, s.now + d ≤ ping + pingInterval) :
    Inv start a { s with now := s.now + d } :=
  { hs with
    pong_le := Nat.le_add_right_of_le hs.pong_le
    inbox_le := fun f hf => Nat.le_add_right_of_le (hs.inbox_le f hf)
    unanswered_le := fun sent hsent =>
      ⟨Nat.le_add_right_of_le (hs.unanswered_le sent hsent).1, hd sent hsent⟩ }

theorem Inv.call (hs : Inv start a s) (hphase : s.phase = .away) :
    Inv start a { s with phase := .polling } :=
  { hs with ticks := fun _ => hs.ticks (by rw [hphase]; exact nofun) }

/-- A call returns a frame's text or the close. -/
theorem Inv.yield (hs : Inv start a s) (hphase : s.phase = .polling) (text : Option String) :
    Inv start a { s with phase := .away, returned := .ok text :: s.returned } :=
  { hs with
    ticks := fun _ => hs.ticks (by rw [hphase]; exact nofun)
    quiet := fun hmem => (List.mem_cons.mp hmem).elim nofun hs.quiet }

/-- A call returns another error; what the interval did no longer matters. -/
theorem Inv.fail (hs : Inv start a s) (ping : Interval) (hperiod : ping.period = pingInterval)
    {e : Error} (he : e ≠ halfOpen) :
    Inv start a { s with
      socket := { s.socket with ping := ping }, phase := .dropped,
      returned := .error e :: s.returned } :=
  { hs with
    period_eq := hperiod
    ticks := fun hphase => absurd rfl hphase
    quiet := fun hmem => by
      cases List.mem_cons.mp hmem with
      | inl heq => exact he (Except.error.inj heq).symm
      | inr hold => exact hs.quiet hold }

/-- A tick sends a PING. -/
theorem Inv.ping (hs : Inv start a s) (hphase : s.phase ≠ .dropped)
    (hdue : s.socket.ping.deadline ≤ s.now) (hprompt : s.now ≤ s.socket.ping.deadline + a) :
    Inv start a { s with
      socket := { s.socket with ping := s.socket.ping.tick },
      unanswered := s.unanswered ++ [s.now] } :=
  { hs with
    unanswered_le := fun sent hsent => by
      cases List.mem_append.mp hsent with
      | inl hold => exact hs.unanswered_le sent hold
      | inr hnew =>
        rw [List.mem_singleton.mp hnew]
        exact ⟨Nat.le_refl _, Nat.le_add_right _ _⟩
    ticks := fun _ => by
      obtain ⟨n, hdeadline, hticks⟩ := hs.ticks hphase
      refine ⟨n + 1, ?_, fun k hk => ?_⟩
      · show s.socket.ping.deadline + s.socket.ping.period = _
        rw [hdeadline, hs.period_eq, Nat.add_mul, Nat.one_mul, Nat.add_assoc]
      · cases Nat.lt_succ_iff_lt_or_eq.mp hk with
        | inl hlt =>
          obtain ⟨sent, hge, hle, hcovered⟩ := hticks k hlt
          exact ⟨sent, hge, hle, hcovered.imp_left (List.mem_append_left _)⟩
        | inr heq =>
          subst heq
          exact ⟨s.now, hdeadline ▸ hdue, hdeadline ▸ hprompt,
            .inl (List.mem_append_right _ (List.mem_singleton.mpr rfl))⟩ }

/-- A frame that is not a PONG leaves the inbox. -/
theorem Inv.skip {v : Nat} {frame : Frame} {inbox : List (Nat × Frame)} (hs : Inv start a s)
    (hinbox : s.inbox = (v, frame) :: inbox) (hframe : frame ≠ .text pong) :
    Inv start a { s with inbox := inbox } :=
  { hs with
    inbox_le := fun f hf => hs.inbox_le f (hinbox ▸ List.mem_cons_of_mem _ hf)
    ticks := fun hphase => by
      refine hs.keep_ticks hphase fun sent hcovered => ?_
      rcases hcovered with hun | ⟨f, hf, htext, hrest⟩ | hread
      · exact .inl hun
      · rw [hinbox] at hf
        cases List.mem_cons.mp hf with
        | inl heq =>
          rw [heq] at htext
          exact absurd htext hframe
        | inr hin => exact .inr (.inl ⟨f, hin, htext, hrest⟩)
      · exact .inr (.inr hread) }

/-- Reading a PONG covers every PING it may answer. -/
theorem Inv.pong {v : Nat} {inbox : List (Nat × Frame)} (hs : Inv start a s)
    (hinbox : s.inbox = (v, .text pong) :: inbox) :
    Inv start a { s with inbox := inbox, socket := { s.socket with lastPong := s.now } } :=
  { hs with
    start_le := Nat.le_trans hs.start_le hs.pong_le
    pong_le := Nat.le_refl _
    inbox_le := fun f hf => hs.inbox_le f (hinbox ▸ List.mem_cons_of_mem _ hf)
    ticks := fun hphase => by
      refine hs.keep_ticks hphase fun sent hcovered => ?_
      rcases hcovered with hun | ⟨f, hf, -, hsent, -⟩ | hread
      · exact .inl hun
      · exact .inr (.inr (Nat.le_trans hsent (hs.inbox_le f hf)))
      · exact .inr (.inr (Nat.le_trans hread hs.pong_le)) }

/-- The tick branch, taken promptly. -/
theorem Inv.onTick (hs : Inv start a s) (hab : a + b ≤ pingInterval ∨ a = 0 ∧ b < 2 * pingInterval)
    (hphase : s.phase = .polling) (hdue : s.socket.ping.deadline ≤ s.now)
    (sent : Except String Unit) (hok : s.Prompt a b (.tick sent)) {s' : Session}
    (h : s.step (.tick sent) = some s') : Inv start a s' := by
  have hpolling : s.phase ≠ .dropped := by
    rw [hphase]
    exact nofun
  have hheard := hs.heard hab hpolling hdue hok.1 hok.2
  have hin : ¬pongTimeout < s.now - s.socket.lastPong := by omega
  rw [step, if_pos ⟨hphase, hdue⟩] at h
  simp only [LiveSocket.onTick, if_neg hin] at h
  cases sent with
  | ok _ =>
    rw [← Option.some.inj h]
    exact hs.ping hpolling hdue hok.1
  | error e =>
    rw [← Option.some.inj h]
    simp only [Option.isNone_some, if_neg Bool.false_ne_true, List.append_nil]
    exact hs.fail s.socket.ping.tick hs.period_eq (ws_ne_halfOpen (by decide) e)

/-- The frame branch. -/
theorem Inv.onFrame (hs : Inv start a s) {s' : Session} (h : s.step .read = some s') :
    Inv start a s' := by
  rw [step] at h
  split at h
  next v frame inbox hphase hinbox =>
    rw [← Option.some.inj h]
    cases frame with
    | text text =>
      by_cases hpong : text = Ws.pong
      · subst hpong
        exact hs.pong hinbox
      · have hskip := hs.skip hinbox fun heq => hpong (Frame.text.inj heq)
        simp only [LiveSocket.onFrame, if_neg hpong]
        exact hskip.yield hphase (some text)
    | close => exact (hs.skip hinbox nofun).yield hphase none
    | other => exact hs.skip hinbox nofun
    | failed e =>
      exact (hs.skip hinbox nofun).fail s.socket.ping hs.period_eq
        (ws_ne_halfOpen (by decide) e)
  next => cases h

/-- Whatever happens promptly keeps the invariant. -/
theorem Inv.step (hs : Inv start a s) (hab : a + b ≤ pingInterval ∨ a = 0 ∧ b < 2 * pingInterval)
    (e : Event) {s' : Session} (hok : s.Prompt a b e) (h : s.step e = some s') :
    Inv start a s' := by
  cases e with
  | wait d =>
    rw [Session.step] at h
    split at h
    next hd => exact Option.some.inj h ▸ hs.wait hd
    next => cases h
  | call =>
    rw [Session.step] at h
    split at h
    next hphase => exact Option.some.inj h ▸ hs.call hphase
    next => cases h
  | tick sent =>
    have hready : s.phase = .polling ∧ s.socket.ping.deadline ≤ s.now := by
      rw [Session.step] at h
      split at h
      next hready => exact hready
      next => cases h
    exact hs.onTick hab hready.1 hready.2 sent hok h
  | read => exact hs.onFrame h
  | receive frame =>
    rw [Session.step] at h
    split at h
    next => cases h
    next => exact Option.some.inj h ▸ hs.receive frame
  | answer ping =>
    rw [Session.step] at h
    split at h
    next => exact Option.some.inj h ▸ hs.answer ping
    next => cases h

end

/-! ## Where the bound is reached -/

/-- Some prompt run from here ends in the half-open error. -/
def Fails (a b : Nat) (s : Session) : Prop :=
  ∃ events last, Certified step (Prompt a b) s events last ∧ .error halfOpen ∈ last.returned

section
variable {a b : Nat}

theorem Fails.step {s next : Session} (e : Event) (hok : s.Prompt a b e)
    (hstep : s.step e = some next) (h : Fails a b next) : Fails a b s := by
  obtain ⟨events, last, hrun, hmem⟩ := h
  exact ⟨e :: events, last, .cons hok hstep hrun, hmem⟩

variable {now due lastPong v : Nat} {text : String} {inbox : List (Nat × Frame)}
  {unanswered : List Nat} {returned : List NextText}

/-- The caller comes back after `d`, a due tick sends a PING, and a text sends it away. -/
theorem Fails.visit (d : Nat) (htext : text ≠ pong)
    (hvenue : ∀ ping ∈ unanswered, now + d ≤ ping + pingInterval) (hdue : due ≤ now + d)
    (hfresh : now + d ≤ lastPong + pongTimeout) (hprompt : now + d ≤ due + a)
    (hpong : ∀ f ∈ inbox, f.2 = .text pong → now + d ≤ f.1 + b)
    (h : Fails a b ⟨now + d, ⟨⟨pingInterval, due + pingInterval⟩, lastPong⟩, inbox,
      unanswered ++ [now + d], .away, .ok (some text) :: returned⟩) :
    Fails a b ⟨now, ⟨⟨pingInterval, due⟩, lastPong⟩, (v, .text text) :: inbox, unanswered, .away,
      returned⟩ := by
  have hin : ¬pongTimeout < now + d - lastPong := by omega
  refine .step (.wait d) trivial (if_pos hvenue) ?_
  refine .step .call trivial rfl ?_
  refine .step (.tick (.ok ())) ⟨hprompt, ?_⟩ (if_pos ⟨rfl, hdue⟩) ?_
  · intro f hf hfpong
    cases List.mem_cons.mp hf with
    | inl heq =>
      rw [heq] at hfpong
      exact absurd (Frame.text.inj hfpong) htext
    | inr hin => exact hpong f hin hfpong
  · simp only [LiveSocket.onTick, if_neg hin]
    refine .step .read trivial rfl ?_
    simp only [LiveSocket.onFrame, if_neg htext]
    exact h

/-- The venue answers its earliest PING after `d`. -/
theorem Fails.answered {socket : LiveSocket} {ping : Nat} (d : Nat)
    (hvenue : ∀ sent ∈ ping :: unanswered, now + d ≤ sent + pingInterval)
    (h : Fails a b ⟨now + d, socket, inbox ++ [(now + d, .text pong)], unanswered, .away,
      returned⟩) :
    Fails a b ⟨now, socket, inbox, ping :: unanswered, .away, returned⟩ := by
  refine .step (.wait d) trivial (if_pos hvenue) ?_
  refine .step (.answer ping) trivial (if_pos List.mem_cons_self) ?_
  rw [List.erase_cons_head]
  exact h

/-- The caller comes back after `d`, too late for the last PONG it read. -/
theorem Fails.expiry (d : Nat) (hvenue : ∀ ping ∈ unanswered, now + d ≤ ping + pingInterval)
    (hdue : due ≤ now + d) (hlate : lastPong + pongTimeout < now + d)
    (hprompt : now + d ≤ due + a) (hpong : ∀ f ∈ inbox, f.2 = .text pong → now + d ≤ f.1 + b) :
    Fails a b ⟨now, ⟨⟨pingInterval, due⟩, lastPong⟩, inbox, unanswered, .away, returned⟩ := by
  have hout : pongTimeout < now + d - lastPong := by omega
  refine .step (.wait d) trivial (if_pos hvenue) ?_
  refine .step .call trivial rfl ?_
  refine .step (.tick (.ok ())) ⟨hprompt, hpong⟩ (if_pos ⟨rfl, hdue⟩) ?_
  simp only [LiveSocket.onTick, if_pos hout]
  exact ⟨[], _, .nil _, List.mem_cons_self⟩

/-- The first PING is answered at once, and then data frames pile up. -/
theorem fails_open (h : Fails a b ⟨0, ⟨⟨pingInterval, pingInterval⟩, 0⟩,
      [(0, .text "update"), (0, .text "update"), (0, .text "update")], [], .away,
      [.ok (some "update")]⟩) : Fails a b (connect 0) := by
  refine .step .call trivial rfl ?_
  refine .step (.tick (.ok ())) ⟨Nat.zero_le _, nofun⟩ rfl ?_
  refine .step (.answer 0) trivial rfl ?_
  refine .step .read trivial rfl ?_
  refine .step (.receive (.text "update")) trivial rfl ?_
  refine .step (.receive (.text "update")) trivial rfl ?_
  refine .step (.receive (.text "update")) trivial rfl ?_
  refine .step (.receive (.text "update")) trivial rfl ?_
  refine .step .read trivial rfl ?_
  exact h

/-- A tick `p` late, and a PONG that is still unread one nanosecond into the fourth tick. -/
theorem fails_late {p : Nat} (hpos : 1 ≤ p) (hmax : p ≤ pingInterval + 1) (ha : p ≤ a)
    (hb : pingInterval + 1 - p ≤ b) : Fails a b (connect 0) := by
  have hthree : pongTimeout = 3 * pingInterval := rfl
  have hfirst : 0 < pingInterval := by decide
  have hupdate : "update" ≠ pong := by decide
  apply fails_open
  apply Fails.visit (pingInterval + p) hupdate
  · exact nofun
  · omega
  · omega
  · omega
  · simp [hupdate]
  apply Fails.visit (pingInterval - p) hupdate
  · simp
  · omega
  · omega
  · omega
  · simp [hupdate]
  apply Fails.answered (pingInterval - (pingInterval - p))
  · simp
  apply Fails.answered (pingInterval - p)
  · simp
    omega
  apply Fails.expiry (pingInterval + 1 - p - (pingInterval - p))
  · exact nofun
  · omega
  · omega
  · omega
  · simp [hupdate]
    omega

/-- Punctual ticks, and a PONG unread for two intervals. -/
theorem fails_unread (hb : 2 * pingInterval ≤ b) : Fails a b (connect 0) := by
  have hthree : pongTimeout = 3 * pingInterval := rfl
  have hfirst : 0 < pingInterval := by decide
  have hupdate : "update" ≠ pong := by decide
  apply fails_open
  apply Fails.visit pingInterval hupdate
  · exact nofun
  · omega
  · omega
  · omega
  · simp [hupdate]
  apply Fails.answered pingInterval
  · simp
  apply Fails.visit 0 hupdate
  · exact nofun
  · omega
  · omega
  · omega
  · simp [hupdate]
  apply Fails.answered pingInterval
  · simp
  apply Fails.visit 0 hupdate
  · exact nofun
  · omega
  · omega
  · omega
  · simp
    omega
  apply Fails.answered pingInterval
  · simp
  apply Fails.expiry 0
  · exact nofun
  · omega
  · omega
  · omega
  · simp
    omega

end

/-- No prompt session is ever called half-open exactly when ticks and PONGs together wait at
most one ping interval, or ticks do not wait at all and PONGs less than two. -/
theorem never_halfOpen_iff (a b : Nat) :
    (∀ (start : Nat) (events : List Event) (s : Session),
      Certified step (Prompt a b) (connect start) events s → .error halfOpen ∉ s.returned) ↔
      a + b ≤ pingInterval ∨ a = 0 ∧ b < 2 * pingInterval := by
  constructor
  · intro hnever
    by_contra hbound
    have hfails : Fails a b (connect 0) := by
      by_cases ha : a = 0
      · exact fails_unread (by omega)
      · exact fails_late (p := min a (pingInterval + 1)) (by omega) (by omega) (by omega) (by omega)
    obtain ⟨events, s, hrun, hmem⟩ := hfails
    exact hnever 0 events s hrun hmem
  · intro hab start events s hrun
    exact (hrun.invariant (fun s e s' hok hstep hs => hs.step hab e hok hstep)
      (inv_connect start a)).quiet

/-- A caller that first polls forty seconds after connecting, before any PING was sent. -/
theorem idle_caller_halfOpen :
    ¬∀ (start : Nat) (events : List Event) (s : Session),
      execAll step (connect start) events = some s → .error halfOpen ∉ s.returned := by
  intro h
  exact h 0 [.wait (fromSecs 40), .call, .tick (.ok ())] _ rfl List.mem_cons_self

end Session

end Eggplant.Ws
