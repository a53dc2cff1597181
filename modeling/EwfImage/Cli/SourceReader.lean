import EwfImage.Error
import EwfImage.Lib.Runs
import EwfImage.Lib.LittleEndian

/-!
# The source reader and its worker

One outstanding source operation, with owned storage and no output access. The reader sends
its buffer with a request, and polls for the reply. A stop signal, a deadline or a lost worker
retires the reader; a worker that is stopped is never reused. Requests are told apart by the
number of the call that sent them.

The main result is `sourceReader_safe`, about every run of a reader and its worker, with every
result of the source, every clock and every moment of the stop signal. At most one request is
outstanding; nothing panics; a recorded failure is final, and every later call returns it; a
call copies only what the worker read for its own request; and a check behind the deadline or
the stop signal can only retire the reader with the failure it saw. The witness is a run in
which the signal comes while the worker has already answered. Threads and the cancelling of a
blocked read are left out.
-/

namespace EwfImage.Cli

open Runs

def readBlockBytes : Nat := 256 * 1024

/-- The memory that a source reads into. -/
structure DeviceBuffer where
  bytes : List UInt8
  size : bytes.length = readBlockBytes

/-- `io::Error`. -/
structure IoError where
  kind : IoErrorKind
  message : Option String := none

/-- What a source is asked for. -/
structure Request where
  call : Nat
  offset : Nat
  length : Nat

/-- A result of the worker, with the storage of its request. -/
structure Reply where
  request : Request
  storage : DeviceBuffer
  result : Except IoError Nat

/-- `read_at`, with the time at which it started. -/
structure ReadCall where
  number : Nat
  offset : Nat
  output : List UInt8
  started : Nat

namespace ReadCall

variable (call : ReadCall)

def request : Request :=
  ⟨call.number, call.offset, min call.output.length readBlockBytes⟩

/-- `buffer[..count].copy_from_slice(..)` -/
def copy (count : Nat) (storage : DeviceBuffer) : List UInt8 :=
  storage.bytes.take count ++ call.output.drop count

/-- What a reply leaves in the caller's buffer. -/
def outputOf (reply : Reply) : List UInt8 :=
  match reply.result with
  | .ok count => call.copy count reply.storage
  | .error _ => call.output

end ReadCall

/-- The fields of `Reader` that its own thread writes. -/
structure Reader where
  /-- The sender of requests is there. -/
  requests : Bool := true
  buffer : Option DeviceBuffer
  timeout : Option Nat
  failure : Option IoErrorKind := none

/-- Where `read_at` stands. -/
inductive CallerPhase
  | idle
  | begun (call : ReadCall)
  /-- Before the first `check_stop`. -/
  | entered (call : ReadCall)
  /-- About to take the buffer. -/
  | taking (call : ReadCall)
  | sending (call : ReadCall) (storage : DeviceBuffer)
  /-- Before the `check_stop` of the loop. -/
  | waiting (call : ReadCall)
  /-- In `recv_timeout`. -/
  | polling (call : ReadCall)
  /-- Before the last `check_stop`. -/
  | received (call : ReadCall) (reply : Reply)
  | finishing (call : ReadCall) (reply : Reply)
  | panicked
  | dropped

/-- The call that is about to `check_stop`: before its request, in its loop, or with its reply. -/
def CallerPhase.checks : CallerPhase → Option ReadCall
  | .entered call | .waiting call | .received call _ => some call
  | _ => none

/-- Where the worker stands. -/
inductive WorkerPhase
  /-- In `pending.recv()`. -/
  | receiving
  | accepted (request : Request) (storage : DeviceBuffer)
  | seeking (request : Request) (storage : DeviceBuffer)
  /-- At the offset, before `halted` is read again. -/
  | placed (request : Request) (storage : DeviceBuffer)
  | reading (request : Request) (storage : DeviceBuffer)
  /-- The result is there, before `halted` is read for the last time. -/
  | completed (reply : Reply)
  | replying (reply : Reply)
  | stopped

/-- The reader, its worker, and what both share. -/
structure SourceReader where
  reader : Reader
  caller : CallerPhase := .idle
  calls : Nat := 0
  pending : Option (Request × DeviceBuffer) := none
  replies : Option Reply := none
  worker : WorkerPhase := .receiving
  /-- The worker's end of the requests is there. -/
  receives : Bool := true
  /-- The worker's end of the replies is there. -/
  replier : Bool := true
  /-- The reader's end of the replies is there. -/
  listens : Bool := true
  halt : Bool := false
  stop : Bool := false
  now : Nat := 0

/-- `Reader::new` -/
def SourceReader.new (timeout : Option Nat) (buffer : DeviceBuffer) : SourceReader :=
  { reader := { buffer := some buffer, timeout } }

namespace SourceReader

variable (s : SourceReader)

/-- The reason for which `check_stop` retires the reader. -/
def stopReason (call : ReadCall) : Option IoError :=
  if s.stop then some ⟨.interrupted, "source read cancelled"⟩
  else if s.reader.timeout.any fun limit => limit ≤ s.now - call.started then
    some ⟨.timedOut, "source read deadline expired"⟩
  else none

def goto (phase : CallerPhase) : SourceReader := { s with caller := phase }

def work (phase : WorkerPhase) : SourceReader := { s with worker := phase }

/-- `failure = Some(kind)` -/
def fail (kind : IoErrorKind) : SourceReader :=
  { s with reader := { s.reader with failure := some kind } }

def shutdown : SourceReader :=
  { s with halt := true, reader := { s.reader with requests := false } }

end SourceReader

/-- The worker's check of what the seek gives. -/
def checkSeek (offset : Nat) (sought : Except String Nat) : Option IoError :=
  match sought with
  | .error message => some ⟨.invalidInput, s!"source seek failed: {message}"⟩
  | .ok position =>
    if position ≠ offset then
      some ⟨.invalidInput, "source seek returned a different offset"⟩
    else none

/-- The worker's check of what the read gives. -/
def checkRead (length : Nat) (result : Except IoError Nat) : Except IoError Nat :=
  match result with
  | .error e => .error e
  | .ok count =>
    if count > length then
      .error ⟨.invalidInput, "source returned an invalid read length"⟩
    else .ok count

inductive ReaderAction
  | call (call : ReadCall)
  /-- `read_at` returns, and leaves these bytes in the caller's buffer. -/
  | returns (call : ReadCall) (result : Except IoError Nat) (output : List UInt8)
  /-- The worker has the result of a request. -/
  | completes (reply : Reply)
  /-- Another step of the caller or of the worker. -/
  | silent
  | signal
  | tick (elapsed : Nat)

/-- One step of the thread that calls `read_at`. -/
inductive CallerStep : SourceReader → ReaderAction → SourceReader → Prop
  | call {s : SourceReader} {offset : Nat} {output : List UInt8} (h : s.caller = .idle) :
      CallerStep s (.call ⟨s.calls, offset, output, s.now⟩)
        { s with caller := .begun ⟨s.calls, offset, output, s.now⟩, calls := s.calls + 1 }
  | refuse {s : SourceReader} {call : ReadCall} {kind : IoErrorKind}
      (h : s.caller = .begun call) (hfailure : s.reader.failure = some kind) :
      CallerStep s (.returns call (.error { kind }) call.output) (s.goto .idle)
  | empty {s : SourceReader} {call : ReadCall} (h : s.caller = .begun call)
      (hfailure : s.reader.failure = none) (hempty : call.output = []) :
      CallerStep s (.returns call (.ok 0) []) (s.goto .idle)
  | enter {s : SourceReader} {call : ReadCall} (h : s.caller = .begun call)
      (hfailure : s.reader.failure = none) (hempty : call.output ≠ []) :
      CallerStep s .silent (s.goto (.entered { call with started := s.now }))
  /-- `check_stop` gives a reason. -/
  | retire {s : SourceReader} {call : ReadCall} {e : IoError}
      (h : s.caller.checks = some call) (hreason : s.stopReason call = some e) :
      CallerStep s (.returns call (.error e) call.output)
        (((s.fail e.kind).shutdown).goto .idle)
  | proceed {s : SourceReader} {call : ReadCall} (h : s.caller = .entered call)
      (hreason : s.stopReason call = none) : CallerStep s .silent (s.goto (.taking call))
  | take {s : SourceReader} {call : ReadCall} {storage : DeviceBuffer}
      (h : s.caller = .taking call) (hbuffer : s.reader.buffer = some storage) :
      CallerStep s .silent
        { s with caller := .sending call storage, reader := { s.reader with buffer := none } }
  /-- `expect("healthy reader owns its buffer")` -/
  | noBuffer {s : SourceReader} {call : ReadCall} (h : s.caller = .taking call)
      (hbuffer : s.reader.buffer = none) : CallerStep s .silent (s.goto .panicked)
  /-- `expect("healthy reader has sender")` -/
  | noSender {s : SourceReader} {call : ReadCall} {storage : DeviceBuffer}
      (h : s.caller = .sending call storage) (hsender : s.reader.requests = false) :
      CallerStep s .silent (s.goto .panicked)
  | send {s : SourceReader} {call : ReadCall} {storage : DeviceBuffer}
      (h : s.caller = .sending call storage) (hsender : s.reader.requests = true)
      (hreceives : s.receives = true) (hroom : s.pending = none) :
      CallerStep s .silent
        { s with caller := .waiting call, pending := some (call.request, storage) }
  /-- The worker is gone, and the storage with it. -/
  | sendFails {s : SourceReader} {call : ReadCall} {storage : DeviceBuffer}
      (h : s.caller = .sending call storage) (hsender : s.reader.requests = true)
      (hreceives : s.receives = false) :
      CallerStep s (.returns call (.error { kind := .brokenPipe }) call.output)
        ((s.fail .brokenPipe).goto .idle)
  | poll {s : SourceReader} {call : ReadCall} (h : s.caller = .waiting call)
      (hreason : s.stopReason call = none) : CallerStep s .silent (s.goto (.polling call))
  | timeout {s : SourceReader} {call : ReadCall} (h : s.caller = .polling call)
      (hreplies : s.replies = none) (hreplier : s.replier = true) :
      CallerStep s .silent (s.goto (.waiting call))
  | disconnected {s : SourceReader} {call : ReadCall} (h : s.caller = .polling call)
      (hreplies : s.replies = none) (hreplier : s.replier = false) :
      CallerStep s (.returns call (.error { kind := .brokenPipe }) call.output)
        ((s.fail .brokenPipe).goto .idle)
  | receive {s : SourceReader} {call : ReadCall} {reply : Reply} (h : s.caller = .polling call)
      (hreplies : s.replies = some reply) :
      CallerStep s .silent { s with caller := .received call reply, replies := none }
  | accept {s : SourceReader} {call : ReadCall} {reply : Reply}
      (h : s.caller = .received call reply) (hreason : s.stopReason call = none) :
      CallerStep s .silent (s.goto (.finishing call reply))
  | finish {s : SourceReader} {call : ReadCall} {reply : Reply}
      (h : s.caller = .finishing call reply)
      (hrange : ∀ count, reply.result = .ok count →
        count ≤ call.output.length ∧ count ≤ readBlockBytes) :
      CallerStep s (.returns call reply.result (call.outputOf reply))
        { s with caller := .idle, reader := { s.reader with buffer := some reply.storage } }
  /-- A slice of the caller's buffer or of the storage is out of range. -/
  | outOfRange {s : SourceReader} {call : ReadCall} {reply : Reply} {count : Nat}
      (h : s.caller = .finishing call reply) (hresult : reply.result = .ok count)
      (hrange : ¬ (count ≤ call.output.length ∧ count ≤ readBlockBytes)) :
      CallerStep s .silent (s.goto .panicked)
  /-- The reader is dropped. -/
  | drop {s : SourceReader} (h : s.caller = .idle) :
      CallerStep s .silent { s.shutdown with caller := .dropped, listens := false, replies := none }

/-- One step of the worker. -/
inductive WorkerStep : SourceReader → ReaderAction → SourceReader → Prop
  | receive {s : SourceReader} {request : Request} {storage : DeviceBuffer}
      (h : s.worker = .receiving) (hpending : s.pending = some (request, storage)) :
      WorkerStep s .silent { s with worker := .accepted request storage, pending := none }
  /-- `pending.recv()` fails. -/
  | hangUp {s : SourceReader} (h : s.worker = .receiving) (hpending : s.pending = none)
      (hsender : s.reader.requests = false) : WorkerStep s .silent (s.work .stopped)
  /-- `halted` is set when the worker looks at it, before the seek or before the reply. -/
  | halted {s : SourceReader} (h : (∃ request storage, s.worker = .accepted request storage) ∨
        ∃ reply, s.worker = .completed reply) (hhalt : s.halt = true) :
      WorkerStep s .silent (s.work .stopped)
  | seek {s : SourceReader} {request : Request} {storage : DeviceBuffer}
      (h : s.worker = .accepted request storage) (hhalt : s.halt = false) :
      WorkerStep s .silent (s.work (.seeking request storage))
  | seekFails {s : SourceReader} {request : Request} {storage : DeviceBuffer}
      {sought : Except String Nat} {e : IoError} (h : s.worker = .seeking request storage)
      (hsought : checkSeek request.offset sought = some e) :
      WorkerStep s (.completes ⟨request, storage, .error e⟩)
        (s.work (.completed ⟨request, storage, .error e⟩))
  | place {s : SourceReader} {request : Request} {storage : DeviceBuffer}
      {sought : Except String Nat} (h : s.worker = .seeking request storage)
      (hsought : checkSeek request.offset sought = none) :
      WorkerStep s .silent (s.work (.placed request storage))
  | interrupt {s : SourceReader} {request : Request} {storage : DeviceBuffer}
      (h : s.worker = .placed request storage) (hhalt : s.halt = true) :
      WorkerStep s (.completes ⟨request, storage, .error { kind := .interrupted }⟩)
        (s.work (.completed ⟨request, storage, .error { kind := .interrupted }⟩))
  | read {s : SourceReader} {request : Request} {storage : DeviceBuffer}
      (h : s.worker = .placed request storage) (hhalt : s.halt = false) :
      WorkerStep s .silent (s.work (.reading request storage))
  /-- The source writes into `buffer.0[..length]`, also when it fails. -/
  | complete {s : SourceReader} {request : Request} {storage filled : DeviceBuffer}
      {result : Except IoError Nat} (h : s.worker = .reading request storage)
      (hfilled : filled.bytes.drop request.length = storage.bytes.drop request.length) :
      WorkerStep s (.completes ⟨request, filled, checkRead request.length result⟩)
        (s.work (.completed ⟨request, filled, checkRead request.length result⟩))
  | reply {s : SourceReader} {reply : Reply} (h : s.worker = .completed reply)
      (hhalt : s.halt = false) : WorkerStep s .silent (s.work (.replying reply))
  | send {s : SourceReader} {reply : Reply} (h : s.worker = .replying reply)
      (hlistens : s.listens = true) (hroom : s.replies = none) :
      WorkerStep s .silent { s with worker := .receiving, replies := some reply }
  | sendFails {s : SourceReader} {reply : Reply} (h : s.worker = .replying reply)
      (hlistens : s.listens = false) : WorkerStep s .silent (s.work .stopped)
  /-- The source panics, or the thread ends otherwise. -/
  | stop {s : SourceReader} : WorkerStep s .silent (s.work .stopped)
  /-- A worker that is gone drops the requests with its end of their channel. -/
  | dropRequests {s : SourceReader} (h : s.worker = .stopped) :
      WorkerStep s .silent { s with receives := false, pending := none }
  | dropReplies {s : SourceReader} (h : s.worker = .stopped) :
      WorkerStep s .silent { s with replier := false }

/-- One step of either thread, of the signal, which once set stays set, or of the clock, which may
advance by any time between two steps. -/
inductive ReaderStep : SourceReader → ReaderAction → SourceReader → Prop
  | caller {s s' : SourceReader} {a : ReaderAction} (h : CallerStep s a s') : ReaderStep s a s'
  | worker {s s' : SourceReader} {a : ReaderAction} (h : WorkerStep s a s') : ReaderStep s a s'
  | signal {s : SourceReader} : ReaderStep s .signal { s with stop := true }
  | tick {s : SourceReader} {elapsed : Nat} :
      ReaderStep s (.tick elapsed) { s with now := s.now + elapsed }

/-! ## What is outstanding -/

def WorkerPhase.requests : WorkerPhase → List Request
  | .accepted request _ | .seeking request _ | .placed request _ | .reading request _ => [request]
  | .completed reply | .replying reply => [reply.request]
  | .receiving | .stopped => []

def WorkerPhase.answers : WorkerPhase → List Reply
  | .completed reply | .replying reply => [reply]
  | _ => []

def CallerPhase.answers : CallerPhase → List Reply
  | .received _ reply | .finishing _ reply => [reply]
  | _ => []

namespace SourceReader

/-- The requests that are sent and whose replies are not received. -/
def outstanding (s : SourceReader) : List Request :=
  (s.pending.map Prod.fst).toList ++ s.worker.requests ++ (s.replies.map Reply.request).toList

/-- The results that are on their way to a caller's buffer. -/
def answers (s : SourceReader) : List Reply :=
  s.worker.answers ++ s.replies.toList ++ s.caller.answers

/-- The reader has its buffer and its sender, and nothing is outstanding. -/
structure Home (s : SourceReader) : Prop where
  buffer : s.reader.buffer.isSome = true
  requests : s.reader.requests = true
  outstanding : s.outstanding = []

/-- The buffer is on its way. -/
structure Lent (s : SourceReader) : Prop where
  healthy : s.reader.failure = none
  requests : s.reader.requests = true

/-- Where the buffer is, for each place at which the caller stands. -/
def Owned (s : SourceReader) : Prop :=
  match s.caller with
  | .idle | .begun _ => s.reader.failure = none → s.Home
  | .entered _ | .taking _ => s.reader.failure = none ∧ s.Home
  | .sending _ _ => s.Lent ∧ s.outstanding = []
  | .waiting call | .polling call => s.Lent ∧ ∀ request ∈ s.outstanding, request = call.request
  | .received call reply | .finishing call reply =>
    s.Lent ∧ s.outstanding = [] ∧ reply.request = call.request
  | .panicked => False
  | .dropped => True

/-- The result of the worker for a request, within its length. -/
structure Answered (history : List ReaderAction) (reply : Reply) : Prop where
  completed : .completes reply ∈ history
  bounded : ∀ count, reply.result = .ok count → count ≤ reply.request.length

/-- No request of the reader is under way, and `read_at` has not looked at its fields. -/
def Outside (s : SourceReader) : Prop :=
  match s.caller with
  | .idle | .begun _ | .dropped => True
  | _ => False

/-- What holds after every run. -/
structure Invariant (s : SourceReader) (history : List ReaderAction) : Prop where
  single : s.outstanding.length ≤ 1
  owned : s.Owned
  answered : ∀ reply ∈ s.answers, Answered history reply

end SourceReader

open SourceReader

variable {s s' : SourceReader} {a : ReaderAction} {history : List ReaderAction}
  {call : ReadCall} {reply : Reply}

/-! ## The steps of the worker -/

theorem checkRead_eq_ok {length count : Nat} {result : Except IoError Nat}
    (h : checkRead length result = .ok count) : count ≤ length := by
  cases result with
  | error e => cases h
  | ok n =>
    by_cases hrange : n > length
    · rw [checkRead, if_pos hrange] at h
      cases h
    · rw [checkRead, if_neg hrange] at h
      cases h
      omega

theorem WorkerStep.keeps (h : WorkerStep s a s') : s'.reader = s.reader ∧ s'.caller = s.caller ∧
    s'.stop = s.stop ∧ s'.now = s.now ∧ s'.outstanding.Sublist s.outstanding := by
  cases h <;> refine ⟨rfl, rfl, rfl, rfl, ?_⟩ <;>
    simp [outstanding, work, WorkerPhase.requests, *]

/-- A worker that obtains a result has it on its way. -/
theorem mem_answers_completed {obtained : Reply}
    (h : reply ∈ (s.work (.completed obtained)).answers) :
    reply ∈ s.answers ∨ obtained = reply := by
  simp only [SourceReader.answers, work, WorkerPhase.answers, List.mem_append,
    List.mem_singleton] at h ⊢
  rcases h with (h | h) | h
  · exact .inr h.symm
  · exact .inl (.inl (.inr h))
  · exact .inl (.inr h)

/-- A result on its way was there before, or the worker has just obtained it. -/
theorem WorkerStep.answers (h : WorkerStep s a s') (hreply : reply ∈ s'.answers) :
    reply ∈ s.answers ∨ a = .completes reply ∧
      ∀ count, reply.result = .ok count → count ≤ reply.request.length := by
  cases h with
  | seekFails _ _ =>
    rcases mem_answers_completed hreply with hold | rfl
    · exact .inl hold
    · exact .inr ⟨rfl, fun _ hok => by cases hok⟩
  | interrupt _ _ =>
    rcases mem_answers_completed hreply with hold | rfl
    · exact .inl hold
    · exact .inr ⟨rfl, fun _ hok => by cases hok⟩
  | complete _ _ =>
    rcases mem_answers_completed hreply with hold | rfl
    · exact .inl hold
    · exact .inr ⟨rfl, fun _ hok => checkRead_eq_ok hok⟩
  | _ => simp_all [SourceReader.answers, work, WorkerPhase.answers]

/-- Fewer requests are outstanding, and everything else that `Owned` speaks of is the same. -/
theorem SourceReader.Owned.of_sublist (h : s.Owned) (hreader : s'.reader = s.reader)
    (hcaller : s'.caller = s.caller) (hsub : s'.outstanding.Sublist s.outstanding) : s'.Owned := by
  have hnil : s.outstanding = [] → s'.outstanding = [] := fun hnone =>
    List.sublist_nil.1 (hnone ▸ hsub)
  have hhome : s.Home → s'.Home := fun hhome =>
    ⟨hreader ▸ hhome.buffer, hreader ▸ hhome.requests, hnil hhome.outstanding⟩
  have hlent : s.Lent → s'.Lent := fun hlent =>
    ⟨hreader ▸ hlent.healthy, hreader ▸ hlent.requests⟩
  unfold Owned at h ⊢
  rw [hcaller]
  cases hphase : s.caller <;> rw [hphase] at h <;> simp only at h ⊢
  case idle => exact fun hnone => hhome (h (hreader ▸ hnone))
  case begun => exact fun hnone => hhome (h (hreader ▸ hnone))
  case entered => exact ⟨hreader ▸ h.1, hhome h.2⟩
  case taking => exact ⟨hreader ▸ h.1, hhome h.2⟩
  case sending => exact ⟨hlent h.1, hnil h.2⟩
  case waiting => exact ⟨hlent h.1, fun request hmem => h.2 request (hsub.subset hmem)⟩
  case polling => exact ⟨hlent h.1, fun request hmem => h.2 request (hsub.subset hmem)⟩
  case received => exact ⟨hlent h.1, hnil h.2.1, h.2.2⟩
  case finishing => exact ⟨hlent h.1, hnil h.2.1, h.2.2⟩

/-! ## The steps of the caller -/

theorem CallerStep.keeps (h : CallerStep s a s') :
    s'.stop = s.stop ∧ s'.worker = s.worker ∧ ∀ reply ∈ s'.answers, reply ∈ s.answers := by
  cases h <;> refine ⟨rfl, rfl, ?_⟩ <;>
    simp +contextual [SourceReader.answers, goto, fail, shutdown, CallerPhase.answers, or_imp, *]

theorem SourceReader.Owned.outside {kind : IoErrorKind} (h : s.Owned) (hfailure : s.reader.failure = some kind) :
    s.Outside := by
  have hlent : ¬ s.Lent := fun hlent => by simp [hlent.healthy] at hfailure
  unfold Owned at h
  unfold Outside
  cases hphase : s.caller <;> simp_all

/-- A failure that is recorded stays. -/
theorem CallerStep.failure {kind : IoErrorKind} (h : CallerStep s a s') (hout : s.Outside)
    (hfailure : s.reader.failure = some kind) : s'.reader.failure = some kind := by
  cases h with
  | retire hchecks _ =>
    unfold Outside at hout
    cases hphase : s.caller <;> simp_all [CallerPhase.checks]
  | _ => simp_all [Outside, goto, shutdown]

theorem CallerStep.single (h : CallerStep s a s') (howned : s.Owned)
    (hsingle : s.outstanding.length ≤ 1) : s'.outstanding.length ≤ 1 := by
  cases h with
  | send hphase _ _ hroom =>
    have hnone : s.outstanding = [] := by
      unfold Owned at howned
      rw [hphase] at howned
      exact howned.2
    simp_all [outstanding]
  | receive => simp_all [outstanding]; omega
  | drop => simp [outstanding, shutdown] at hsingle ⊢; omega
  | _ => simpa [outstanding, goto, fail, shutdown] using hsingle

theorem SourceReader.Home.goto (h : s.Home) (phase : CallerPhase) : (s.goto phase).Home :=
  ⟨h.buffer, h.requests, h.outstanding⟩

/-- The worker never says that it read more than the request and the buffers hold. -/
theorem SourceReader.Answered.inRange (h : Answered history reply) (hrequest : reply.request = call.request)
    {count : Nat} (hresult : reply.result = .ok count) :
    count ≤ call.output.length ∧ count ≤ readBlockBytes := by
  have hbound := h.bounded count hresult
  have hlength : reply.request.length = min call.output.length readBlockBytes := by
    rw [hrequest]
    rfl
  omega

/-- The buffer is where it should be after a step of the caller. -/
theorem CallerStep.owned (h : CallerStep s a s') (hinv : s.Invariant history) : s'.Owned := by
  have howned := hinv.owned
  have hsingle := hinv.single
  unfold Owned at howned
  cases h with
  | call hphase =>
    rw [hphase] at howned
    exact fun hnone => ⟨(howned hnone).buffer, (howned hnone).requests, (howned hnone).outstanding⟩
  | refuse hphase hfailure =>
    intro hnone
    simp [goto, hfailure] at hnone
  | empty hphase hfailure _ =>
    rw [hphase] at howned
    exact fun hnone => (howned hnone).goto _
  | enter hphase hfailure _ =>
    rw [hphase] at howned
    exact ⟨hfailure, (howned hfailure).goto _⟩
  | retire _ _ =>
    intro hnone
    cases hnone
  | proceed hphase _ =>
    rw [hphase] at howned
    exact ⟨howned.1, howned.2.goto _⟩
  | take hphase _ =>
    rw [hphase] at howned
    exact ⟨⟨howned.1, howned.2.requests⟩, howned.2.outstanding⟩
  | noBuffer hphase hbuffer =>
    rw [hphase] at howned
    have hsome := howned.2.buffer
    rw [hbuffer] at hsome
    cases hsome
  | noSender hphase hsender =>
    rw [hphase] at howned
    have htrue := howned.1.requests
    rw [hsender] at htrue
    cases htrue
  | send hphase hsender _ hroom =>
    rw [hphase] at howned
    refine ⟨⟨howned.1.healthy, hsender⟩, fun request hmem => ?_⟩
    have hnone := howned.2
    simp_all [outstanding]
  | sendFails _ _ _ =>
    intro hnone
    cases hnone
  | poll hphase _ =>
    rw [hphase] at howned
    exact ⟨⟨howned.1.healthy, howned.1.requests⟩, howned.2⟩
  | timeout hphase _ _ =>
    rw [hphase] at howned
    exact ⟨⟨howned.1.healthy, howned.1.requests⟩, howned.2⟩
  | disconnected _ _ _ =>
    intro hnone
    cases hnone
  | @receive _ reply hphase hreplies =>
    rw [hphase] at howned
    refine ⟨⟨howned.1.healthy, howned.1.requests⟩, ?_, howned.2 _ ?_⟩
    · simp only [outstanding, hreplies, Option.map_some, Option.toList_some, List.length_append,
        List.length_singleton] at hsingle
      have hpending := List.length_eq_zero_iff.1
        (show ((s.pending.map Prod.fst).toList ++ s.worker.requests).length = 0 by
          rw [List.length_append]; omega)
      simp only [outstanding, hpending, Option.map_none, Option.toList_none, List.append_nil]
    · simp [outstanding, hreplies]
  | accept hphase _ =>
    rw [hphase] at howned
    exact ⟨⟨howned.1.healthy, howned.1.requests⟩, howned.2⟩
  | finish hphase _ =>
    rw [hphase] at howned
    exact fun _ => ⟨rfl, howned.1.requests, howned.2.1⟩
  | @outOfRange _ reply _ hphase hresult hrange =>
    rw [hphase] at howned
    have hanswer := hinv.answered reply (by simp [answers, hphase, CallerPhase.answers])
    exact hrange (hanswer.inRange howned.2.2 hresult)
  | drop hphase => trivial

/-! ## Runs -/

theorem ReaderStep.failure {kind : IoErrorKind} (h : ReaderStep s a s') (howned : s.Owned)
    (hfailure : s.reader.failure = some kind) : s'.reader.failure = some kind := by
  cases h with
  | caller h => exact h.failure (howned.outside hfailure) hfailure
  | worker h => rw [h.keeps.1, hfailure]
  | signal => exact hfailure
  | tick => exact hfailure

theorem SourceReader.Answered.later (h : Answered history reply) (a : ReaderAction) :
    Answered (history ++ [a]) reply :=
  ⟨List.mem_append_left _ h.completed, h.bounded⟩

/-- One step of anybody keeps the invariant. -/
theorem ReaderStep.invariant (h : ReaderStep s a s') (hinv : s.Invariant history) :
    s'.Invariant (history ++ [a]) := by
  cases h with
  | caller h =>
    exact ⟨h.single hinv.owned hinv.single, h.owned hinv,
      fun reply hmem => (hinv.answered reply (h.keeps.2.2 reply hmem)).later a⟩
  | worker h =>
    obtain ⟨hreader, hcaller, _, _, hsub⟩ := h.keeps
    refine ⟨hsub.length_le.trans hinv.single, hinv.owned.of_sublist hreader hcaller hsub,
      fun reply hmem => ?_⟩
    rcases h.answers hmem with hold | ⟨rfl, hbound⟩
    · exact (hinv.answered reply hold).later a
    · exact ⟨List.mem_append_right _ (List.mem_singleton_self _), hbound⟩
  | signal =>
    exact ⟨hinv.single, hinv.owned.of_sublist rfl rfl (List.Sublist.refl _),
      fun reply hmem => (hinv.answered reply hmem).later _⟩
  | tick =>
    exact ⟨hinv.single, hinv.owned.of_sublist rfl rfl (List.Sublist.refl _),
      fun reply hmem => (hinv.answered reply hmem).later _⟩

theorem new_invariant (timeout : Option Nat) (buffer : DeviceBuffer) :
    (SourceReader.new timeout buffer).Invariant [] :=
  ⟨Nat.zero_le _, fun _ => ⟨rfl, rfl, rfl⟩, fun reply hmem => by cases hmem⟩

/-- Every run from a state with the invariant ends in one. -/
theorem SourceReader.Invariant.run {later : List ReaderAction} (hinv : s.Invariant history)
    (hrun : Run ReaderStep s later s') : s'.Invariant (history ++ later) :=
  hrun.history (fun _ _ _ _ hinv hstep => hstep.invariant hinv) hinv

theorem failure_run {kind : IoErrorKind} {later : List ReaderAction} (hinv : s.Invariant history)
    (hrun : Run ReaderStep s later s') (hfailure : s.reader.failure = some kind) :
    s'.reader.failure = some kind := by
  have h : s'.Invariant (history ++ later) ∧ s'.reader.failure = some kind :=
    hrun.history (I := fun s past => s.Invariant past ∧ s.reader.failure = some kind)
      (fun _ _ _ _ h hstep => ⟨hstep.invariant h.1, hstep.failure h.1.owned h.2⟩)
      ⟨hinv, hfailure⟩
  exact h.2

/-! ## What `read_at` returns -/

/-- The call failed, its buffer is untouched, and the reader is retired with the kind of the error
recorded. -/
structure Retired (call : ReadCall) (result : Except IoError Nat) (output : List UInt8)
    (s' : SourceReader) : Prop where
  failed : ∃ e, result = .error e ∧ s'.reader.failure = some e.kind
  untouched : output = call.output

/-- The call gave what the worker had for its own request: the result of the reply, and the bytes
that were read for it in front of the buffer. -/
structure Served (history : List ReaderAction) (call : ReadCall) (result : Except IoError Nat)
    (output : List UInt8) (reply : Reply) : Prop where
  completed : .completes reply ∈ history
  request : reply.request = call.request
  result : result = reply.result
  output : output = call.outputOf reply

variable {result : Except IoError Nat} {output : List UInt8}

/-- A call that returns is refused or retires the reader, asks for nothing, or is served. -/
theorem returns_cases (hinv : s.Invariant history)
    (h : ReaderStep s (.returns call result output) s') :
    Retired call result output s' ∨ (call.output = [] ∧ result = .ok 0 ∧ output = []) ∨
      ∃ reply, s.caller = .finishing call reply ∧ Served history call result output reply := by
  cases h with
  | worker h => cases h
  | caller h =>
    cases h with
    | refuse _ hfailure => exact .inl ⟨⟨_, rfl, hfailure⟩, rfl⟩
    | empty _ _ hempty => exact .inr (.inl ⟨hempty, rfl, rfl⟩)
    | retire _ _ => exact .inl ⟨⟨_, rfl, rfl⟩, rfl⟩
    | sendFails _ _ _ => exact .inl ⟨⟨_, rfl, rfl⟩, rfl⟩
    | disconnected _ _ _ => exact .inl ⟨⟨_, rfl, rfl⟩, rfl⟩
    | @finish _ reply hphase _ =>
      have hanswer := hinv.answered reply (by simp [answers, hphase, CallerPhase.answers])
      have howned := hinv.owned
      unfold Owned at howned
      rw [hphase] at howned
      exact .inr (.inr ⟨reply, hphase, hanswer.completed, howned.2.2, rfl, rfl⟩)

/-- While no request of the reader is under way, its calls only fail as they are retired. -/
theorem returns_outside (hinv : s.Invariant history)
    (h : ReaderStep s (.returns call result output) s') {kind : IoErrorKind}
    (hfailure : s.reader.failure = some kind) :
    output = call.output ∧ ∃ e, result = .error e ∧ e.kind = kind := by
  have hkept := h.failure hinv.owned hfailure
  have hout := hinv.owned.outside hfailure
  cases h with
  | worker h => cases h
  | caller h =>
    cases h with
    | refuse _ hrecorded =>
      rw [hfailure] at hrecorded
      cases hrecorded
      exact ⟨rfl, _, rfl, rfl⟩
    | empty _ hnone _ =>
      rw [hfailure] at hnone
      cases hnone
    | retire _ _ =>
      cases hkept
      exact ⟨rfl, _, rfl, rfl⟩
    | sendFails _ _ _ =>
      cases hkept
      exact ⟨rfl, _, rfl, rfl⟩
    | disconnected _ _ _ =>
      cases hkept
      exact ⟨rfl, _, rfl, rfl⟩
    | finish hphase _ =>
      unfold Outside at hout
      rw [hphase] at hout
      exact hout.elim

/-- No reply can reach a caller any more. -/
inductive Barred (s : SourceReader) : Prop
  /-- The stop signal is set, and no request is under way. -/
  | signalled (stop : s.stop = true) (caller : s.Outside ∨ ∃ call, s.caller = .entered call)
  /-- The worker is gone, and has left no reply. -/
  | lost (worker : s.worker = .stopped) (answers : s.answers = [])

theorem CallerStep.barred (h : CallerStep s a s') (hbar : Barred s) : Barred s' := by
  cases hbar with
  | lost hworker hnone =>
    refine .lost (h.keeps.2.1.trans hworker) (List.eq_nil_iff_forall_not_mem.2 ?_)
    intro reply hmem
    have hold := h.keeps.2.2 reply hmem
    rw [hnone] at hold
    cases hold
  | signalled hstop hcaller =>
    have hreason : ∀ call, s.stopReason call ≠ none := fun call => by simp [stopReason, hstop]
    refine .signalled (h.keeps.1.trans hstop) ?_
    unfold Outside at hcaller
    cases h with
    | enter _ _ _ => exact .inr ⟨_, rfl⟩
    | proceed _ hpasses => exact (hreason _ hpasses).elim
    | poll _ hpasses => exact (hreason _ hpasses).elim
    | accept _ hpasses => exact (hreason _ hpasses).elim
    | _ => simp_all [Outside, goto]

theorem ReaderStep.barred (h : ReaderStep s a s') (hbar : Barred s) : Barred s' := by
  cases h with
  | caller h => exact h.barred hbar
  | worker h =>
    obtain ⟨_, hcaller, hstop, _⟩ := h.keeps
    cases hbar with
    | signalled hset hphase =>
      refine .signalled (hstop.trans hset) ?_
      unfold Outside at hphase ⊢
      rw [hcaller]
      exact hphase
    | lost hworker hnone =>
      cases h <;> simp_all [answers, work, WorkerPhase.answers, Barred.lost]
  | signal =>
    cases hbar with
    | signalled _ hphase => exact .signalled rfl hphase
    | lost hworker hnone => exact .lost hworker hnone
  | tick =>
    cases hbar with
    | signalled hset hphase => exact .signalled hset hphase
    | lost hworker hnone => exact .lost hworker hnone

/-- A call that finishes has its reply on its way. -/
theorem Barred.not_finishing (hbar : Barred s) : s.caller ≠ .finishing call reply := by
  intro hphase
  cases hbar with
  | signalled _ hcaller => simp [Outside, hphase] at hcaller
  | lost _ hnone => simp [answers, hphase, CallerPhase.answers] at hnone

/-- Between two calls, a stop signal or a lost worker bars every reply, unless a failure is
recorded already. -/
theorem barred_of_idle (hinv : s.Invariant history) (hidle : s.caller = .idle)
    (hhealthy : s.reader.failure = none) (h : s.stop = true ∨ s.worker = .stopped) :
    Barred s := by
  rcases h with hstop | hworker
  · exact .signalled hstop (.inl (by unfold Outside; rw [hidle]; trivial))
  · refine .lost hworker ?_
    have howned := hinv.owned
    unfold Owned at howned
    rw [hidle] at howned
    have hnone := (howned hhealthy).outstanding
    simp_all [outstanding, answers, WorkerPhase.answers, CallerPhase.answers]

/-! ## Stops and deadlines -/

/-- The stop signal is set, or the deadline of the call has passed. -/
def SourceReader.Due (s : SourceReader) (call : ReadCall) : Prop :=
  s.stop = true ∨ ∃ limit, s.reader.timeout = some limit ∧ limit ≤ s.now - call.started

/-- The failure that a stop or a deadline leaves between `s` and `s'`: the one of the signal if it
was set already, the one of the deadline if it is unset still. -/
structure Stopped (s s' : SourceReader) : Prop where
  recorded : s'.reader.failure = some .interrupted ∨ s'.reader.failure = some .timedOut
  signalled : s.stop = true → s'.reader.failure = some .interrupted
  expired : s'.stop = false → s'.reader.failure = some .timedOut

/-- Behind a state in which the stop or the deadline was due at a check: the check is still to
come, or it has retired the reader. -/
inductive Overdue (s s' : SourceReader) : Prop
  | checking {call : ReadCall} (checks : s'.caller.checks = some call) (due : s'.Due call)
      (signalled : s.stop = true → s'.stop = true)
  | stopped (h : Stopped s s')

theorem SourceReader.Due.stopReason (h : s.Due call) :
    ∃ e, s.stopReason call = some e ∧ (s.stop = true → e.kind = .interrupted) ∧
      (s.stop = false → e.kind = .timedOut) := by
  unfold SourceReader.stopReason
  cases hstop : s.stop with
  | true => exact ⟨_, rfl, fun _ => rfl, fun hunset => by cases hunset⟩
  | false =>
    rcases h with hset | ⟨limit, htimeout, hpassed⟩
    · rw [hstop] at hset
      cases hset
    · have hexpired : (s.reader.timeout.any fun limit => limit ≤ s.now - call.started) = true := by
        rw [htimeout]
        exact decide_eq_true hpassed
      rw [if_neg Bool.false_ne_true, if_pos hexpired]
      exact ⟨_, rfl, (fun hset => by cases hset), fun _ => rfl⟩

/-- The clock goes on, and the signal stays set. -/
theorem SourceReader.Due.later (h : s.Due call) (hstop : s.stop = true → s'.stop = true)
    (hnow : s.now ≤ s'.now) (htimeout : s'.reader.timeout = s.reader.timeout) : s'.Due call := by
  rcases h with hset | ⟨limit, hlimit, hpassed⟩
  · exact .inl (hstop hset)
  · exact .inr ⟨limit, htimeout.trans hlimit, by omega⟩

theorem ReaderStep.stop (h : ReaderStep s a s') (hset : s.stop = true) : s'.stop = true := by
  cases h with
  | caller h => rw [h.keeps.1, hset]
  | worker h => rw [h.keeps.2.2.1, hset]
  | signal => rfl
  | tick => exact hset

/-- A check that is due can only retire the reader. -/
theorem CallerStep.overdue {s₀ : SourceReader} (h : CallerStep s a s')
    (hchecks : s.caller.checks = some call) (hdue : s.Due call)
    (hsignalled : s₀.stop = true → s.stop = true) : Stopped s₀ s' := by
  obtain ⟨e, hreason, hset, hunset⟩ := hdue.stopReason
  cases h with
  | retire hcall hgiven =>
    rw [hchecks] at hcall
    cases hcall
    rw [hreason] at hgiven
    cases hgiven
    refine ⟨?_, fun hfirst => ?_, fun hlast => ?_⟩
    · cases hstop : s.stop with
      | true => exact .inl (congrArg some (hset hstop))
      | false => exact .inr (congrArg some (hunset hstop))
    · exact congrArg some (hset (hsignalled hfirst))
    · exact congrArg some (hunset hlast)
  | proceed hphase hpasses =>
    rw [hphase] at hchecks
    cases hchecks
    rw [hreason] at hpasses
    cases hpasses
  | poll hphase hpasses =>
    rw [hphase] at hchecks
    cases hchecks
    rw [hreason] at hpasses
    cases hpasses
  | accept hphase hpasses =>
    rw [hphase] at hchecks
    cases hchecks
    rw [hreason] at hpasses
    cases hpasses
  | _ => simp_all [CallerPhase.checks]

theorem Stopped.step {s₀ : SourceReader} (h : Stopped s₀ s) (hstep : ReaderStep s a s')
    (howned : s.Owned) : Stopped s₀ s' := by
  refine ⟨h.recorded.imp (hstep.failure howned) (hstep.failure howned),
    fun hset => hstep.failure howned (h.signalled hset), fun hunset => ?_⟩
  refine hstep.failure howned (h.expired ?_)
  by_contra hset
  rw [hstep.stop (Bool.eq_true_of_not_eq_false hset)] at hunset
  cases hunset

theorem Overdue.step {s₀ : SourceReader} (h : Overdue s₀ s) (hstep : ReaderStep s a s')
    (howned : s.Owned) : Overdue s₀ s' := by
  cases h with
  | stopped h => exact .stopped (h.step hstep howned)
  | checking hchecks hdue hsignalled =>
    cases hstep with
    | caller h => exact .stopped (h.overdue hchecks hdue hsignalled)
    | worker h =>
      obtain ⟨hreader, hcaller, hstop, hnow, _⟩ := h.keeps
      exact .checking (hcaller ▸ hchecks) (hdue.later (fun hset => hstop.trans hset) hnow.ge
        (by rw [hreader])) fun hset => hstop.trans (hsignalled hset)
    | signal => exact .checking hchecks (.inl rfl) fun _ => rfl
    | tick =>
      exact .checking hchecks (hdue.later id (Nat.le_add_right _ _) rfl) hsignalled

/-- Whatever returns behind such a check returns the failure of the retired reader. -/
theorem Overdue.returns {s₀ : SourceReader} (h : Overdue s₀ s) (hinv : s.Invariant history)
    (hstep : ReaderStep s (.returns call result output) s') :
    Retired call result output s' ∧ Stopped s₀ s' := by
  cases h with
  | stopped h =>
    have hkept := h.step hstep hinv.owned
    obtain ⟨kind, hkind⟩ : ∃ kind, s.reader.failure = some kind :=
      h.recorded.elim (fun hset => ⟨_, hset⟩) fun hexpired => ⟨_, hexpired⟩
    obtain ⟨houtput, e, hresult, rfl⟩ := returns_outside hinv hstep hkind
    exact ⟨⟨⟨e, hresult, hstep.failure hinv.owned hkind⟩, houtput⟩, hkept⟩
  | checking hchecks hdue hsignalled =>
    cases hstep with
    | worker h => cases h
    | caller h =>
      refine ⟨?_, h.overdue hchecks hdue hsignalled⟩
      cases h with
      | retire _ _ => exact ⟨⟨_, rfl, rfl⟩, rfl⟩
      | _ => simp_all [CallerPhase.checks]

/-- What a call returns behind a check that is due, as it stands at the end of the run. -/
theorem overdue_run {s₀ : SourceReader} {later : List ReaderAction} (hinv : s.Invariant history)
    (hdue : Overdue s₀ s) (hrun : Run ReaderStep s later s')
    (hmem : .returns call result output ∈ later) :
    Retired call result output s' ∧ Stopped s₀ s' := by
  obtain ⟨_, _, s₁, s₂, hbefore, hstep, hafter⟩ := hrun.of_mem hmem
  have hreached : s₁.Invariant _ ∧ Overdue s₀ s₁ :=
    hbefore.history (I := fun s past => s.Invariant past ∧ Overdue s₀ s)
      (fun _ _ _ _ h hstep => ⟨hstep.invariant h.1, h.2.step hstep h.1.owned⟩) ⟨hinv, hdue⟩
  obtain ⟨⟨⟨e, hresult, hrecorded⟩, houtput⟩, hstopped⟩ := hreached.2.returns hreached.1 hstep
  have hinv₂ := hreached.1.run (.one hstep)
  have hlast : s'.Invariant _ ∧ Stopped s₀ s' :=
    hafter.history (I := fun s past => s.Invariant past ∧ Stopped s₀ s)
      (fun _ _ _ _ h hstep => ⟨hstep.invariant h.1, h.2.step hstep h.1.owned⟩) ⟨hinv₂, hstopped⟩
  exact ⟨⟨⟨e, hresult, failure_run hinv₂ hafter hrecorded⟩, houtput⟩, hlast.2⟩

/-- Every run keeps one request outstanding at most, never panics, and has the buffer and the
sender of a healthy reader; a recorded failure is final and is what every later call returns; a
call copies nothing but what the worker read for its own request; a call that checks with the
signal set or its deadline passed can only retire the reader, and the failure says which; and a
signal that is set or a worker that is lost before a call retires the reader. -/
theorem sourceReader_safe {timeout : Option Nat} {buffer : DeviceBuffer}
    (hrun : Run ReaderStep (.new timeout buffer) history s) :
    s.outstanding.length ≤ 1 ∧ s.caller ≠ .panicked ∧
    (s.reader.failure = none → ∀ call,
      (s.caller = .idle ∨ s.caller = .taking call → s.reader.buffer.isSome = true) ∧
      (s.caller ≠ .dropped → s.reader.requests = true)) ∧
    (∀ kind, s.reader.failure = some kind → ∀ later s', Run ReaderStep s later s' →
      s'.reader.failure = some kind ∧ ∀ call result output, .returns call result output ∈ later →
        output = call.output ∧ ∃ e, result = .error e ∧ e.kind = kind) ∧
    (∀ call result output s', ReaderStep s (.returns call result output) s' →
      Retired call result output s' ∨ (call.output = [] ∧ result = .ok 0 ∧ output = []) ∨
        ∃ reply, Served history call result output reply) ∧
    (∀ call, s.caller.checks = some call → s.Due call → ∀ later s', Run ReaderStep s later s' →
      ∀ call' result output, .returns call' result output ∈ later →
        Retired call' result output s' ∧ Stopped s s') ∧
    (s.caller = .idle → s.stop = true ∨ s.worker = .stopped →
      ∀ later s', Run ReaderStep s later s' → ∀ call result output,
        .returns call result output ∈ later → call.output ≠ [] →
          Retired call result output s') := by
  have hinv : s.Invariant history := (new_invariant timeout buffer).run hrun
  have hfinal : ∀ kind, s.reader.failure = some kind → ∀ later s', Run ReaderStep s later s' →
      s'.reader.failure = some kind ∧ ∀ call result output, .returns call result output ∈ later →
        output = call.output ∧ ∃ e, result = .error e ∧ e.kind = kind := by
    intro kind hfailure later s' hlater
    refine ⟨failure_run hinv hlater hfailure, fun call result output hmem => ?_⟩
    obtain ⟨_, _, s₁, _, hbefore, hstep, _⟩ := hlater.of_mem hmem
    exact returns_outside (hinv.run hbefore) hstep (failure_run hinv hbefore hfailure)
  refine ⟨hinv.single, ?_, ?_, hfinal, ?_, ?_, ?_⟩
  · intro hphase
    have howned := hinv.owned
    unfold Owned at howned
    rw [hphase] at howned
    exact howned
  · intro hhealthy call
    have howned := hinv.owned
    unfold Owned at howned
    refine ⟨?_, fun hphase => ?_⟩
    · rintro (hphase | hphase) <;> rw [hphase] at howned
      · exact (howned hhealthy).buffer
      · exact howned.2.buffer
    · cases hcaller : s.caller <;> rw [hcaller] at howned hphase
      case idle => exact (howned hhealthy).requests
      case begun => exact (howned hhealthy).requests
      case entered => exact howned.2.requests
      case taking => exact howned.2.requests
      case dropped => exact (hphase rfl).elim
      case panicked => exact howned.elim
      all_goals exact howned.1.requests
  · intro call result output s' hstep
    rcases returns_cases hinv hstep with hretired | hempty | ⟨reply, _, hserved⟩
    · exact .inl hretired
    · exact .inr (.inl hempty)
    · exact .inr (.inr ⟨reply, hserved⟩)
  · intro checking hchecks hdue later s' hlater call result output hmem
    exact overdue_run hinv (.checking hchecks hdue id) hlater hmem
  · intro hidle hbroken later s' hlater call result output hmem hnonempty
    cases hfailure : s.reader.failure with
    | some kind =>
      obtain ⟨hfinal', hreturns⟩ := hfinal kind hfailure later s' hlater
      obtain ⟨houtput, e, hresult, rfl⟩ := hreturns call result output hmem
      exact ⟨⟨e, hresult, hfinal'⟩, houtput⟩
    | none =>
      obtain ⟨_, _, s₁, s₂, hbefore, hstep, hafter⟩ := hlater.of_mem hmem
      have hbar : Barred s₁ :=
        hbefore.invariant (fun _ _ _ hbar hstep => hstep.barred hbar)
          (barred_of_idle hinv hidle hfailure hbroken)
      rcases returns_cases (hinv.run hbefore) hstep with
        ⟨⟨e, hresult, hrecorded⟩, houtput⟩ | hempty | ⟨reply, hphase, _⟩
      · exact ⟨⟨e, hresult,
          failure_run ((hinv.run hbefore).run (.one hstep)) hafter hrecorded⟩, houtput⟩
      · exact (hnonempty hempty.1).elim
      · exact (hbar.not_finishing hphase).elim

/-- A call for one byte, which the worker reads while the stop signal is still unset, and which
the signal then retires. -/
theorem sourceReader_safe_signalled : ∃ history s, Run ReaderStep
      (.new none ⟨.replicate readBlockBytes 0, List.length_replicate⟩) history s ∧
    s.reader.failure = some .interrupted ∧ s.outstanding.length ≤ 1 ∧
    ∀ later s', Run ReaderStep s later s' → s'.reader.failure = some .interrupted := by
  have hrun : ∃ history s, Run ReaderStep
      (.new none ⟨.replicate readBlockBytes 0, List.length_replicate⟩) history s ∧
      s.reader.failure = some .interrupted :=
    ⟨_, _, .cons (.caller (@CallerStep.call _ 0 [7] rfl)) <|
      .cons (.caller (.enter rfl rfl (by decide))) <|
      .cons (.caller (.proceed rfl rfl)) <|
      .cons (.caller (.take rfl rfl)) <|
      .cons (.caller (.send rfl rfl rfl rfl)) <|
      .cons (.worker (.receive rfl rfl)) <|
      .cons (.worker (.seek rfl rfl)) <|
      .cons (.worker (@WorkerStep.place _ _ _ (.ok 0) rfl rfl)) <|
      .cons (.worker (.read rfl rfl)) <|
      .cons (.worker (@WorkerStep.complete _ _ _ _ (.ok 1) rfl rfl)) <|
      .cons (.worker (.reply rfl rfl)) <|
      .cons (.worker (.send rfl rfl rfl)) <|
      .cons (.caller (.poll rfl rfl)) <|
      .cons (.caller (.receive rfl rfl)) <|
      .cons .signal <|
      .one (.caller (.retire rfl rfl)), rfl⟩
  obtain ⟨history, s, hrun, hfailure⟩ := hrun
  obtain ⟨hsingle, _, _, hfinal, _⟩ := sourceReader_safe hrun
  exact ⟨history, s, hrun, hfailure, hsingle,
    fun later s' hlater => (hfinal _ hfailure later s' hlater).1⟩

end EwfImage.Cli
