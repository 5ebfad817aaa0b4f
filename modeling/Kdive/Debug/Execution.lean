import Kdive.Debug.Memory
import Mathlib.Data.Rat.Floor

/-! # Resuming the target, and waiting for it to stop

`ExecutionControl.resume` writes a verb, reads until a record says `stopped`, and if none does within the bound
interrupts and reads on. The records a write returns are never looked at; if the stop is among them it is lost, and
`resume` raises `transport_stall` (`stop_in_reply_lost`). It works when a stop in a reply is followed by a read that
shows the same (`resume_returns_stop_iff`).
-/

namespace Kdive.Debug
structure GdbFrame where
  level : Option Int
  func : Option String
  addr : Option String
  file : Option String
  line : Option Int
  deriving DecidableEq

structure GdbStopRecord where
  reason : Option String
  bkptno : Option String
  stoppedThread : Option String
  frame : Option GdbFrame
  timedOut : Bool := false
  deriving DecidableEq

def textOf : Option Value → Option String
  | some (.str s) => some s
  | _ => none

/-- `mi_int`: `int` is only tried on digits after signs, and raises if there is more than one sign. -/
def miInt (value : Option Value) : Except Err (Option Int) :=
  match textOf value with
  | none => .ok none
  | some s =>
    let digits := s.toList.dropWhile (· = '-')
    if digits.isEmpty || !digits.all Char.isDigit then .ok none
    else match s.toInt? with
      | some n => .ok (some n)
      | none => .error (.value [.text "invalid literal for int() with base 10: ", .quoted s])

def frameFrom (payload : Dict) : Except Err GdbFrame := do
  return ⟨← miInt (payload.lookup "level"), textOf (payload.lookup "func"), textOf (payload.lookup "addr"),
    textOf (payload.lookup "file"), ← miInt (payload.lookup "line")⟩

def terminalStopReasons : List String := ["exited", "exited-normally", "exited-signalled"]

def stopRecordFrom (record : MiRecord) : Except Err GdbStopRecord := do
  let payload := payloadDict record.payload
  let reason := textOf (payload.lookup "reason")
  if reason.any (· ∈ terminalStopReasons) then
    throw (.of [.text "gdb/MI inferior exited (", .text (reason.getD ""), .text "); the debug session is dead"]
      .debugAttachFailure [("code", .text "session_exited"), ("reason", .text (reason.getD ""))])
  let frame ← match payloadDict (payload.lookup "frame") with
    | [] => pure none
    | fields => some <$> frameFrom fields
  return { reason, bkptno := textOf (payload.lookup "bkptno"),
           stoppedThread := textOf (payload.lookup "stopped-threads"), frame }

/-- `redact_stop`, by what the redactor makes of a text. No field has the name of a secret. -/
def redactStop (redact : String → String) (stop : GdbStopRecord) : GdbStopRecord :=
  { stop with
    reason := stop.reason.map redact
    bkptno := stop.bkptno.map redact
    stoppedThread := stop.stoppedThread.map redact
    frame := stop.frame.map fun f =>
      { f with func := f.func.map redact, addr := f.addr.map redact, file := f.file.map redact } }

/-! ## `resume` -/

/-- What the controller returns: for the two writes, and for each read after them. -/
structure Controller where
  reply : List MiRecord
  reads : Nat → List MiRecord
  interruptReply : List MiRecord
  later : Nat → List MiRecord

def stopped (records : List MiRecord) : Option MiRecord := records.find? (·.message = some "stopped")

def stoppedIn (reads : Nat → List MiRecord) (slices : Nat) : Option MiRecord :=
  (List.range slices).findSome? fun i => stopped (reads i)

/-- `wait_for_stop`, for a bound of `slices` reads. -/
def waitForStop (reads : Nat → List MiRecord) (slices : Nat) : Except Err (Option GdbStopRecord) :=
  match stoppedIn reads slices with
  | some record => (stopRecordFrom record).map some
  | none => .ok none

def transportStall (verb : String) : Err :=
  .of [.text "gdb/MI RSP went silent: interrupt issued but no *stopped arrived; link stalled"]
    .infrastructureFailure [("code", .text "transport_stall"), ("verb", .text verb)]

/-- The reads `resume` waits for: two for each second of the bound, and one. -/
def slices (timeout : ℚ) : Nat :=
  let requested := if timeout = 0 then 60 else ⌈timeout⌉
  2 * (max 1 (min requested 60)).toNat + 1

def interruptSlices : Nat := 21

/-- `interrupt`, after the write. -/
def interrupt (redact : String → String) (ctl : Controller) : Except Err (Option GdbStopRecord) :=
  (waitForStop ctl.later interruptSlices).map (·.map (redactStop redact))

/-- `resume`; `none` is a timeout that is no finite number, infinity for all. -/
def resume (redact : String → String) (ctl : Controller) (verb : String) (timeout : Option ℚ) :
    Except Err GdbStopRecord := do
  match timeout.filter (0 ≤ ·) with
  | none => throw (.configuration [.text "gdb/MI continue timeout must be a finite non-negative number"]
      [("code", .text "bad_continue_timeout"), ("timeout_sec", timeout.elim (.text "inf") .dec)])
  | some t =>
    let _ ← executeMiCommand (fun _ => .ok ctl.reply) verb
    match ← waitForStop ctl.reads (slices t) with
    | some stop => return redactStop redact stop
    | none =>
      match ← interrupt redact ctl with
      | none => throw (transportStall verb)
      | some interrupted => return redactStop redact { interrupted with timedOut := true }

/-! ## What it returns -/

/-- What is asked of `resume`: the first stop of the bound, from the write's reply on, is returned; if there is none,
    that of the interrupt, with `timed_out`; and a stall is raised only if there is none at all. -/
def ReturnsStop (redact : String → String) (ctl : Controller) (verb : String) (t : ℚ) : Prop :=
  (∀ record stop, (stopped ctl.reply).or (stoppedIn ctl.reads (slices t)) = some record →
    stopRecordFrom record = .ok stop → resume redact ctl verb (some t) = .ok (redactStop redact stop) ∧
      (redactStop redact stop).timedOut = false) ∧
  ((stopped ctl.reply).or (stoppedIn ctl.reads (slices t)) = none → ∀ record stop,
    (stopped ctl.interruptReply).or (stoppedIn ctl.later interruptSlices) = some record →
    stopRecordFrom record = .ok stop → resume redact ctl verb (some t) =
      .ok (redactStop redact { redactStop redact stop with timedOut := true })) ∧
  (resume redact ctl verb (some t) = .error (transportStall verb) →
    (stopped ctl.reply).or (stoppedIn ctl.reads (slices t)) = none ∧
    (stopped ctl.interruptReply).or (stoppedIn ctl.later interruptSlices) = none)

section
variable {ctl : Controller} {t : ℚ}

theorem resume_eq (redact : String → String) (verb : String) (ht : 0 ≤ t) (hreply : isError ctl.reply = false) :
    resume redact ctl verb (some t) = match stoppedIn ctl.reads (slices t), stoppedIn ctl.later interruptSlices with
      | some record, _ => (stopRecordFrom record).map (redactStop redact)
      | none, some record => (stopRecordFrom record).map fun stop =>
          redactStop redact { redactStop redact stop with timedOut := true }
      | none, none => .error (transportStall verb) := by
  have ht' : (some t).filter (0 ≤ ·) = some t := by simp [ht]
  have hexec : executeMiCommand (fun _ => .ok ctl.reply) verb = .ok ctl.reply := by
    simp [executeMiCommand, Except.bind, hreply]
  unfold resume
  rw [ht']
  simp only [hexec, waitForStop, interrupt]
  cases stoppedIn ctl.reads (slices t) with
  | some record =>
    cases h : stopRecordFrom record with
    | error | ok => simp only [h]; rfl
  | none =>
    cases stoppedIn ctl.later interruptSlices with
    | some record =>
      cases h : stopRecordFrom record with
      | error | ok => simp only [h]; rfl
    | none => rfl

theorem stopRecordFrom_cases (verb : String) (record : MiRecord) :
    (∃ stop, stopRecordFrom record = .ok stop ∧ stop.timedOut = false) ∨
      ∃ e, stopRecordFrom record = .error e ∧ e ≠ transportStall verb := by
  have hint : ∀ v, (∃ n, miInt v = .ok n) ∨ ∃ m, miInt v = .error (.value m) := by
    intro v
    unfold miInt
    split
    · exact .inl ⟨_, rfl⟩
    · dsimp only
      split
      · exact .inl ⟨_, rfl⟩
      · split
        · exact .inl ⟨_, rfl⟩
        · exact .inr ⟨_, rfl⟩
  have hframe : ∀ d, (∃ f, frameFrom d = .ok f) ∨ ∃ m, frameFrom d = .error (.value m) := by
    intro d
    unfold frameFrom
    rcases hint (d.lookup "level") with ⟨n, hn⟩ | ⟨m, hm⟩
    · rcases hint (d.lookup "line") with ⟨k, hk⟩ | ⟨m, hm⟩
      · exact .inl ⟨_, by rw [hn, hk]; rfl⟩
      · exact .inr ⟨m, by rw [hn, hm]; rfl⟩
    · exact .inr ⟨m, by rw [hm]; rfl⟩
  unfold stopRecordFrom
  dsimp only
  split
  · exact .inr ⟨_, rfl, by simp [transportStall, Err.of]⟩
  · split
    · exact .inl ⟨_, rfl, rfl⟩
    · rcases hframe (payloadDict ((payloadDict record.payload).lookup "frame")) with ⟨f, hf⟩ | ⟨m, hm⟩
      · exact .inl ⟨_, by rw [hf]; rfl, rfl⟩
      · exact .inr ⟨_, by rw [hm]; rfl, by simp [transportStall, Err.of]⟩

theorem map_ok_iff {α β : Type} {r : Except Err α} {f : α → β} {b : β} :
    r.map f = .ok b ↔ ∃ a, r = .ok a ∧ f a = b := by
  cases r with
  | error | ok => simp [Except.map]
end

/-- `resume` returns the first stop exactly if none stands in a reply that it does not look at. -/
theorem resume_returns_stop_iff (redact : String → String) (ctl : Controller) (verb : String) (t : ℚ) (ht : 0 ≤ t)
    (hreply : isError ctl.reply = false) :
    ReturnsStop redact ctl verb t ↔
      (∀ record stop, stopped ctl.reply = some record → stopRecordFrom record = .ok stop →
        ∃ record' stop', stoppedIn ctl.reads (slices t) = some record' ∧ stopRecordFrom record' = .ok stop' ∧
          redactStop redact stop' = redactStop redact stop) ∧
      (stopped ctl.reply = none → stoppedIn ctl.reads (slices t) = none → ∀ record stop,
        stopped ctl.interruptReply = some record → stopRecordFrom record = .ok stop →
        ∃ record' stop', stoppedIn ctl.later interruptSlices = some record' ∧ stopRecordFrom record' = .ok stop' ∧
          redactStop redact { redactStop redact stop' with timedOut := true } =
            redactStop redact { redactStop redact stop with timedOut := true }) ∧
      (stoppedIn ctl.reads (slices t) = none → stoppedIn ctl.later interruptSlices = none →
        stopped ctl.reply = none ∧ stopped ctl.interruptReply = none) := by
  have hresume := resume_eq redact verb ht hreply
  have htimed : ∀ {record stop}, stopRecordFrom record = .ok stop → (redactStop redact stop).timedOut = false := by
    intro record stop hstop
    rcases stopRecordFrom_cases verb record with ⟨s, hs, htimed⟩ | ⟨e, he, -⟩
    · cases hs.symm.trans hstop
      exact htimed
    · cases he.symm.trans hstop
  have hstall : ∀ {record : MiRecord} {f : GdbStopRecord → GdbStopRecord},
      (stopRecordFrom record).map f ≠ .error (transportStall verb) := by
    intro record f h
    rcases stopRecordFrom_cases verb record with ⟨s, hs, -⟩ | ⟨e, he, hne⟩
    · rw [hs] at h
      cases h
    · rw [he] at h
      exact hne (Except.error.inj h)
  unfold ReturnsStop
  rw [hresume]
  cases hw : stoppedIn ctl.reads (slices t) with
  | some w =>
    constructor
    · rintro ⟨h1, -, -⟩
      refine ⟨fun record stop hv hs => ?_, (by rintro - ⟨⟩), (by rintro ⟨⟩)⟩
      obtain ⟨stop', hs', heq⟩ := map_ok_iff.mp (h1 record stop (by rw [hv]; rfl) hs).1
      exact ⟨w, stop', rfl, hs', heq⟩
    · rintro ⟨c1, -, -⟩
      refine ⟨fun record stop hfirst hs => ⟨?_, htimed hs⟩, fun hnone => ?_, fun h => absurd h hstall⟩
      · rcases Option.or_eq_some_iff.mp hfirst with hv | ⟨-, hw'⟩
        · obtain ⟨_, stop', ⟨⟩, hs', heq⟩ := c1 record stop hv hs
          exact map_ok_iff.mpr ⟨stop', hs', heq⟩
        · cases hw'
          exact map_ok_iff.mpr ⟨stop, hs, rfl⟩
      · cases (Option.or_eq_none_iff.mp hnone).2
  | none =>
    rw [Option.or_none]
    cases hl : stoppedIn ctl.later interruptSlices with
    | some l =>
      constructor
      · rintro ⟨h1, h2, -⟩
        refine ⟨fun record stop hv hs => ?_, fun hv _ record stop hu hs => ?_, (by rintro - ⟨⟩)⟩
        · -- what comes after the interrupt has timed out, and the stop of the reply has not
          obtain ⟨hok, hfalse⟩ := h1 record stop hv hs
          obtain ⟨stop', -, heq⟩ := map_ok_iff.mp hok
          rw [← heq] at hfalse
          cases hfalse
        · obtain ⟨stop', hs', heq⟩ := map_ok_iff.mp (h2 hv record stop (by rw [hu]; rfl) hs)
          exact ⟨l, stop', rfl, hs', heq⟩
      · rintro ⟨c1, c2, -⟩
        refine ⟨fun record stop hv hs => ?_, fun hv record stop hfirst hs => ?_, fun h => absurd h hstall⟩
        · obtain ⟨_, _, ⟨⟩, -, -⟩ := c1 record stop hv hs
        · rcases Option.or_eq_some_iff.mp hfirst with hu | ⟨-, hl'⟩
          · obtain ⟨_, stop', ⟨⟩, hs', heq⟩ := c2 hv rfl record stop hu hs
            exact map_ok_iff.mpr ⟨stop', hs', heq⟩
          · cases hl'
            exact map_ok_iff.mpr ⟨stop, hs, rfl⟩
    | none =>
      rw [Option.or_none]
      constructor
      · rintro ⟨h1, h2, h3⟩
        refine ⟨fun record stop hv hs => ?_, fun hv _ record stop hu hs => ?_, fun _ _ => h3 rfl⟩
        · cases (h1 record stop hv hs).1
        · cases h2 hv record stop hu hs
      · rintro ⟨-, -, c3⟩
        obtain ⟨hv, hu⟩ := c3 rfl rfl
        refine ⟨fun record stop hv' _ => ?_, fun _ record stop hu' _ => ?_, fun _ => ⟨hv, hu⟩⟩
        · cases hv.symm.trans hv'
        · cases hu.symm.trans hu'

namespace Lab
def hit : MiRecord :=
  { type := "notify", message := some "stopped", payload := some (.dict [("reason", .str "breakpoint-hit")]) }

def running : MiRecord := { type := "result", message := some "running" }

def inTime : Controller :=
  { reply := [running], reads := fun i => if i = 1 then [hit] else [], interruptReply := [], later := fun _ => [] }

def atOnce : Controller :=
  { reply := [running, hit], reads := fun _ => [], interruptReply := [], later := fun _ => [] }
end Lab

theorem resume_returns_stop_in_time : ReturnsStop id Lab.inTime "-exec-continue" 5 := by
  refine (resume_returns_stop_iff id Lab.inTime "-exec-continue" 5 (by norm_num) (by decide)).mpr ⟨?_, ?_, ?_⟩
  · rintro record stop ⟨⟩
  · rintro - - record stop ⟨⟩
  · exact fun _ _ => ⟨rfl, rfl⟩

/-- A stop in the write's own reply ends in a stall. -/
theorem stop_in_reply_lost :
    stopRecordFrom Lab.hit = .ok ⟨some "breakpoint-hit", none, none, none, false⟩ ∧
      stopped Lab.atOnce.reply = some Lab.hit ∧
      resume id Lab.atOnce "-exec-continue" (some 5) = .error (transportStall "-exec-continue") := by
  refine ⟨by decide +kernel, rfl, ?_⟩
  rw [resume_eq _ _ (by norm_num) (by decide)]
  have hnone : ∀ n, stoppedIn (fun _ => []) n = none := fun n =>
    List.findSome?_eq_none_iff.mpr fun _ _ => rfl
  simp only [Lab.atOnce, hnone]
end Kdive.Debug
