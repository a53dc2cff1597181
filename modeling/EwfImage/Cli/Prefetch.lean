import EwfImage.Cli.SourceReader

/-!
# Read-ahead

A producer reads the source into two reusable buffers while the consumer takes earlier data. The
buffers go round between two bounded channels. The source's results and what the consumer's
reads give are the labels of a run.

The steps are those of the producer and of the consumer, in any order. Two results are about
every run from the start. While the consumer reads on only until it has been given an error of
the source, what it is given is what the source gave, in the order of the source: no byte is
lost or given twice, an error comes where the source had it, and an end is reported behind the
end of the source only (`prefetch_careful`). With a buffer to spare one side can always go on,
so neither waits for the other. Both conditions are needed: behind an error a reader is told
that the source has ended (`not_delivers`), and a source that counts beyond its buffer costs the
buffer, after which both sides wait (`blocked_of_invalid`). The threads and the channels are
those of the program; the results of the source are arbitrary.
-/

namespace EwfImage.Cli.Prefetch

open Runs

def bufferBytes : Nat := 256 * 1024

def buffers : Nat := 2

structure Buffer where
  bytes : List UInt8
  size : bytes.length = bufferBytes

/-- What `source.read` left in a buffer, and what it returned. -/
structure SourceRead where
  buffer : Buffer
  result : Except IoError Nat

/-- A result after which the producer stops: the end of the source, or an error. -/
def SourceRead.terminal (read : SourceRead) : Bool :=
  match read.result with
  | .ok count => count = 0
  | .error _ => true

/-- What a read of the consumer gives. -/
inductive Delivery
  /-- `Ok(0)` for an empty buffer. -/
  | nothing
  /-- `Ok(0)` for a buffer with room. -/
  | zero
  | data (bytes : List UInt8)
  /-- The error of the source. -/
  | failed (e : IoError)
  /-- `InvalidData`: the source returned a count beyond its buffer. -/
  | invalid
  /-- `BrokenPipe`: the producer is gone. -/
  | broken

def Delivery.result : Delivery → Except IoError Nat
  | .nothing | .zero => .ok 0
  | .data bytes => .ok bytes.length
  | .failed e => .error e
  | .invalid => .error { kind := .invalidData }
  | .broken => .error { kind := .brokenPipe }

inductive ProducerPhase
  /-- In `free.recv()`. -/
  | waiting
  | reading (buffer : Buffer)
  | sending (read : SourceRead)
  | stopped

inductive ConsumerPhase
  | idle
  | begun (output : List UInt8)
  /-- In `completed.recv()`. -/
  | receiving (output : List UInt8)
  | copying (output : List UInt8)
  | panicked
  | dropped

/-- The buffer of the read under way. -/
def ConsumerPhase.output : ConsumerPhase → List UInt8
  | .begun output | .receiving output | .copying output => output
  | .idle | .panicked | .dropped => []

structure Reader where
  available : List Buffer
  completed : List SourceRead := []
  current : Option Buffer := none
  position : Nat := 0
  valid : Nat := 0
  finished : Bool := false
  producer : ProducerPhase := .waiting
  consumer : ConsumerPhase := .idle
  /-- The producer's end of the free buffers is there. -/
  accepts : Bool := true
  /-- The producer's end of the completed ones is there. -/
  fills : Bool := true

/-- `Reader::new`, with its two buffers. -/
def Reader.new (first second : Buffer) : Reader := { available := [first, second] }

inductive Action
  | reads (read : SourceRead)
  | call (output : List UInt8)
  | returns (delivery : Delivery)
  | silent

/-- One step of the thread that reads the source. -/
inductive ProducerStep : Reader → Action → Reader → Prop
  | take {s : Reader} {buffer : Buffer} {rest : List Buffer} (h : s.producer = .waiting)
      (havailable : s.available = buffer :: rest) :
      ProducerStep s .silent { s with producer := .reading buffer, available := rest }
  /-- The consumer is gone, and with it the sender of free buffers. -/
  | hangUp {s : Reader} (h : s.producer = .waiting) (havailable : s.available = [])
      (hdropped : s.consumer = .dropped) : ProducerStep s .silent { s with producer := .stopped }
  | read {s : Reader} {buffer : Buffer} {read : SourceRead} (h : s.producer = .reading buffer) :
      ProducerStep s (.reads read) { s with producer := .sending read }
  | send {s : Reader} {read : SourceRead} (h : s.producer = .sending read)
      (hlistens : s.consumer ≠ .dropped) (hroom : s.completed.length < buffers) :
      ProducerStep s .silent { s with
        completed := s.completed ++ [read]
        producer := if read.terminal then .stopped else .waiting }
  | sendFails {s : Reader} {read : SourceRead} (h : s.producer = .sending read)
      (hdropped : s.consumer = .dropped) :
      ProducerStep s .silent { s with producer := .stopped }
  /-- The source panics, or the thread ends otherwise. -/
  | stop {s : Reader} : ProducerStep s .silent { s with producer := .stopped }
  | dropFree {s : Reader} (h : s.producer = .stopped) :
      ProducerStep s .silent { s with accepts := false, available := [] }
  | dropFilled {s : Reader} (h : s.producer = .stopped) :
      ProducerStep s .silent { s with fills := false }

/-- One step of the thread that calls `read`. -/
inductive ConsumerStep : Reader → Action → Reader → Prop
  | call {s : Reader} {output : List UInt8} (h : s.consumer = .idle) :
      ConsumerStep s (.call output) { s with consumer := .begun output }
  | empty {s : Reader} (h : s.consumer = .begun []) :
      ConsumerStep s (.returns .nothing) { s with consumer := .idle }
  | finished {s : Reader} {output : List UInt8} (h : s.consumer = .begun output)
      (houtput : output ≠ []) (hfinished : s.finished = true) :
      ConsumerStep s (.returns .zero) { s with consumer := .idle }
  | fetch {s : Reader} {output : List UInt8} (h : s.consumer = .begun output)
      (houtput : output ≠ []) (hfinished : s.finished = false) (hused : s.position = s.valid)
      (hcurrent : s.current = none) :
      ConsumerStep s .silent { s with consumer := .receiving output }
  /-- The used buffer goes back to the producer. -/
  | recycle {s : Reader} {output : List UInt8} {buffer : Buffer} (h : s.consumer = .begun output)
      (houtput : output ≠ []) (hfinished : s.finished = false) (hused : s.position = s.valid)
      (hcurrent : s.current = some buffer) (haccepts : s.accepts = true)
      (hroom : s.available.length < buffers) :
      ConsumerStep s .silent { s with
        consumer := .receiving output
        current := none
        available := s.available ++ [buffer] }
  | discard {s : Reader} {output : List UInt8} {buffer : Buffer} (h : s.consumer = .begun output)
      (houtput : output ≠ []) (hfinished : s.finished = false) (hused : s.position = s.valid)
      (hcurrent : s.current = some buffer) (haccepts : s.accepts = false) :
      ConsumerStep s .silent { s with consumer := .receiving output, current := none }
  | resume {s : Reader} {output : List UInt8} (h : s.consumer = .begun output)
      (houtput : output ≠ []) (hfinished : s.finished = false) (hused : s.position ≠ s.valid) :
      ConsumerStep s .silent { s with consumer := .copying output }
  | eof {s : Reader} {output : List UInt8} {read : SourceRead} {rest : List SourceRead}
      (h : s.consumer = .receiving output) (hcompleted : s.completed = read :: rest)
      (hresult : read.result = .ok 0) :
      ConsumerStep s (.returns .zero) { s with
        consumer := .idle, completed := rest, finished := true }
  | fail {s : Reader} {output : List UInt8} {read : SourceRead} {rest : List SourceRead}
      {e : IoError} (h : s.consumer = .receiving output) (hcompleted : s.completed = read :: rest)
      (hresult : read.result = .error e) :
      ConsumerStep s (.returns (.failed e)) { s with
        consumer := .idle, completed := rest, finished := true }
  | accept {s : Reader} {output : List UInt8} {read : SourceRead} {rest : List SourceRead}
      {count : Nat} (h : s.consumer = .receiving output) (hcompleted : s.completed = read :: rest)
      (hresult : read.result = .ok count) (hpos : 0 < count) (hcount : count ≤ bufferBytes) :
      ConsumerStep s .silent { s with
        consumer := .copying output
        completed := rest
        current := some read.buffer
        position := 0
        valid := count }
  | reject {s : Reader} {output : List UInt8} {read : SourceRead} {rest : List SourceRead}
      {count : Nat} (h : s.consumer = .receiving output) (hcompleted : s.completed = read :: rest)
      (hresult : read.result = .ok count) (hcount : bufferBytes < count) :
      ConsumerStep s (.returns .invalid) { s with consumer := .idle, completed := rest }
  | broken {s : Reader} {output : List UInt8} (h : s.consumer = .receiving output)
      (hcompleted : s.completed = []) (hfills : s.fills = false) :
      ConsumerStep s (.returns .broken) { s with consumer := .idle }
  | copy {s : Reader} {output : List UInt8} {buffer : Buffer} (h : s.consumer = .copying output)
      (hcurrent : s.current = some buffer) :
      ConsumerStep s
        (.returns (.data (((buffer.bytes.take s.valid).drop s.position).take output.length)))
        { s with
          consumer := .idle
          position := s.position + min output.length (s.valid - s.position) }
  /-- `expect("active buffer")` -/
  | noBuffer {s : Reader} {output : List UInt8} (h : s.consumer = .copying output)
      (hcurrent : s.current = none) : ConsumerStep s .silent { s with consumer := .panicked }
  | drop {s : Reader} (h : s.consumer = .idle) :
      ConsumerStep s .silent { s with consumer := .dropped, completed := [] }

inductive Step : Reader → Action → Reader → Prop
  | producer {s s' : Reader} {a : Action} (h : ProducerStep s a s') : Step s a s'
  | consumer {s s' : Reader} {a : Action} (h : ConsumerStep s a s') : Step s a s'

/-! ## What a run delivers -/

/-- What a source has and a reader gets: bytes, and errors at their positions. -/
inductive Item
  | byte (b : UInt8)
  | failed (e : IoError)
  | invalid

def SourceRead.items (read : SourceRead) : List Item :=
  match read.result with
  | .ok count =>
    if count ≤ bufferBytes then (read.buffer.bytes.take count).map .byte else [.invalid]
  | .error e => [.failed e]

def Delivery.items : Delivery → List Item
  | .data bytes => bytes.map .byte
  | .failed e => [.failed e]
  | .invalid => [.invalid]
  | .nothing | .zero | .broken => []

def Delivery.isInvalid : Delivery → Bool
  | .invalid => true
  | _ => false

def Action.read : Action → Option SourceRead
  | .reads read => some read
  | _ => none

def Action.delivery : Action → Option Delivery
  | .returns delivery => some delivery
  | _ => none

def sourceReads (history : List Action) : List SourceRead := history.filterMap Action.read

def deliveries (history : List Action) : List Delivery := history.filterMap Action.delivery

/-- What the source gave. -/
def given (history : List Action) : List Item := (sourceReads history).flatMap SourceRead.items

/-- What the consumer got. -/
def got (history : List Action) : List Item := (deliveries history).flatMap Delivery.items

def invalids (history : List Action) : Nat := (deliveries history).countP Delivery.isInvalid

namespace Reader

variable (s : Reader)

def ProducerBlocked : Prop :=
  s.consumer ≠ .dropped ∧ ((s.producer = .waiting ∧ s.available = []) ∨
    ∃ read, s.producer = .sending read ∧ buffers ≤ s.completed.length)

def ConsumerBlocked : Prop :=
  (∃ output, s.consumer = .receiving output ∧ s.completed = [] ∧ s.fills = true) ∨
    ∃ output, s.consumer = .begun output ∧ s.current.isSome = true ∧ s.accepts = true ∧
      buffers ≤ s.available.length

end Reader

/-- No source error has been given, and one buffer at most has been lost to an invalid count. -/
structure Clear (history : List Action) : Prop where
  sound : ∀ e, .failed e ∉ deliveries history
  spare : invalids history < buffers

/-- The consumer reads on only while that is so; a read with an empty buffer is always careful. -/
def Careful (history : List Action) : Prop :=
  ∀ before output after, history = before ++ .call output :: after → output ≠ [] → Clear before

/-! ## The flow of the buffers -/

namespace ProducerPhase

def sent : ProducerPhase → List SourceRead
  | .sending read => [read]
  | _ => []

/-- The producer holds a buffer. -/
def held : ProducerPhase → Nat
  | .reading _ | .sending _ => 1
  | _ => 0

/-- The producer can read the source again. -/
def running : ProducerPhase → Bool
  | .waiting | .reading _ => true
  | _ => false

end ProducerPhase

/-- What the consumer has received and not yet given. -/
def Reader.rest (s : Reader) : List Item :=
  match s.current with
  | some buffer => ((buffer.bytes.take s.valid).drop s.position).map .byte
  | none => []

/-- Where the consumer stands, as far as its buffer goes. -/
def Reader.Placed (s : Reader) (past : List Action) : Prop :=
  match s.consumer with
  | .idle => True
  | .begun output => output ≠ [] → Clear past
  | .receiving output =>
    s.current = none ∧ s.finished = false ∧ invalids past < buffers ∧ output ≠ []
  -- Both ways into a copy leave room in the output and bytes in the buffer.
  | .copying output => s.current.isSome = true ∧ output ≠ [] ∧ s.position ≠ s.valid
  | .panicked | .dropped => False

/-- The results of the source are those that the consumer has received, those on their way, and
those that were lost with the producer. -/
structure Flow (s : Reader) (past : List Action) (seen gone : List SourceRead) : Prop where
  reads : sourceReads past = seen ++ (s.completed ++ s.producer.sent) ++ gone
  delivered : seen.flatMap SourceRead.items = got past ++ s.rest
  lost : gone = [] ∨ s.producer = .stopped
  last : ∀ before read after, sourceReads past = before ++ read :: after → read.terminal = true →
    after = [] ∧ s.producer.running = false
  finished : s.finished = true → s.current = none ∧
    ((∃ before read, seen = before ++ [read] ∧ read.result = .ok 0) ∨
      ∃ e, .failed e ∈ deliveries past)
  spares : s.producer = .stopped ∨ s.available.length + s.producer.held + s.completed.length +
    s.current.toList.length + invalids past = buffers
  accepts : s.accepts = false → s.producer = .stopped
  window : s.current = none → s.position = s.valid
  within : s.position ≤ s.valid ∧ s.valid ≤ bufferBytes
  placed : s.Placed past

variable {s s' : Reader} {past : List Action} {seen gone : List SourceRead} {a : Action}

@[simp] theorem sourceReads_reads (read : SourceRead) :
    sourceReads (past ++ [.reads read]) = sourceReads past ++ [read] := by
  simp [sourceReads, Action.read]

@[simp] theorem sourceReads_call (output : List UInt8) :
    sourceReads (past ++ [.call output]) = sourceReads past := by
  simp [sourceReads, Action.read]

@[simp] theorem sourceReads_returns (delivery : Delivery) :
    sourceReads (past ++ [.returns delivery]) = sourceReads past := by
  simp [sourceReads, Action.read]

@[simp] theorem sourceReads_silent : sourceReads (past ++ [.silent]) = sourceReads past := by
  simp [sourceReads, Action.read]

@[simp] theorem deliveries_reads (read : SourceRead) :
    deliveries (past ++ [.reads read]) = deliveries past := by
  simp [deliveries, Action.delivery]

@[simp] theorem deliveries_call (output : List UInt8) :
    deliveries (past ++ [.call output]) = deliveries past := by
  simp [deliveries, Action.delivery]

@[simp] theorem deliveries_returns (delivery : Delivery) :
    deliveries (past ++ [.returns delivery]) = deliveries past ++ [delivery] := by
  simp [deliveries, Action.delivery]

@[simp] theorem deliveries_silent : deliveries (past ++ [.silent]) = deliveries past := by
  simp [deliveries, Action.delivery]

/-- A label that is no delivery changes nothing that was delivered. -/
theorem clear_congr {past' : List Action} (h : deliveries past' = deliveries past) :
    (Clear past' ↔ Clear past) ∧ got past' = got past ∧ invalids past' = invalids past := by
  refine ⟨⟨fun hclear => ⟨?_, ?_⟩, fun hclear => ⟨?_, ?_⟩⟩, ?_, ?_⟩
  · rw [← h]
    exact hclear.sound
  · have hspare := hclear.spare
    rwa [invalids, h] at hspare
  · rw [h]
    exact hclear.sound
  · have hspare := hclear.spare
    rwa [invalids, ← h] at hspare
  · rw [got, got, h]
  · rw [invalids, invalids, h]

/-- A step of the producer leaves what the consumer holds. -/
structure SameConsumer (s s' : Reader) : Prop where
  consumer : s'.consumer = s.consumer
  current : s'.current = s.current
  position : s'.position = s.position
  valid : s'.valid = s.valid
  finished : s'.finished = s.finished

theorem Flow.of_producer {past' : List Action} {gone' : List SourceRead}
    (hflow : Flow s past seen gone) (hsame : SameConsumer s s')
    (hdeliveries : deliveries past' = deliveries past)
    (hreads : sourceReads past' = seen ++ (s'.completed ++ s'.producer.sent) ++ gone')
    (hlost : gone' = [] ∨ s'.producer = .stopped)
    (hlast : ∀ before read after, sourceReads past' = before ++ read :: after →
      read.terminal = true → after = [] ∧ s'.producer.running = false)
    (hspares : s'.producer = .stopped ∨ s'.available.length + s'.producer.held +
      s'.completed.length + s.current.toList.length + invalids past = buffers)
    (haccepts : s'.accepts = false → s'.producer = .stopped) : Flow s' past' seen gone' := by
  obtain ⟨hclear, hgot, hinvalids⟩ := clear_congr hdeliveries
  refine ⟨hreads, ?_, hlost, hlast, ?_, ?_, haccepts, ?_, ?_, ?_⟩
  · have hgiven := hflow.delivered
    unfold Reader.rest at hgiven ⊢
    rw [hgot, hsame.current, hsame.position, hsame.valid]
    exact hgiven
  · rw [hsame.finished, hsame.current, hdeliveries]
    exact hflow.finished
  · rw [hsame.current, hinvalids]
    exact hspares
  · rw [hsame.current, hsame.position, hsame.valid]
    exact hflow.window
  · rw [hsame.position, hsame.valid]
    exact hflow.within
  · have hplaced := hflow.placed
    unfold Reader.Placed at hplaced ⊢
    rw [hsame.consumer, hsame.current, hsame.position, hsame.valid, hsame.finished, hclear,
      hinvalids]
    exact hplaced

theorem ProducerStep.flow (h : ProducerStep s a s') (hflow : Flow s past seen gone)
    (hlistens : s.consumer ≠ .dropped) : ∃ gone', Flow s' (past ++ [a]) seen gone' := by
  have hreads := hflow.reads
  have hlast := hflow.last
  have hspares := hflow.spares
  have haccepts := hflow.accepts
  cases h with
  | take hphase havailable =>
    have hgone : gone = [] := hflow.lost.resolve_right (by rw [hphase]; intro h; cases h)
    refine ⟨[], hflow.of_producer ⟨rfl, rfl, rfl, rfl, rfl⟩ (by simp) ?_ (.inl rfl) ?_ ?_ ?_⟩
    · simpa [hphase, hgone, ProducerPhase.sent] using hreads
    · simpa [hphase, ProducerPhase.running] using hlast
    · simp only [hphase, havailable, ProducerPhase.held, List.length_cons, reduceCtorEq,
        false_or] at hspares ⊢
      omega
    · simpa [hphase] using haccepts
  | hangUp _ _ hdropped => exact (hlistens hdropped).elim
  | @read buffer read hphase =>
    have hgone : gone = [] := hflow.lost.resolve_right (by rw [hphase]; intro h; cases h)
    refine ⟨[], hflow.of_producer ⟨rfl, rfl, rfl, rfl, rfl⟩ (by simp) ?_ (.inl rfl) ?_ ?_ ?_⟩
    · simp [hreads, hphase, hgone, ProducerPhase.sent]
    · intro before other after hsplit hterminal
      rw [sourceReads_reads] at hsplit
      refine ⟨?_, rfl⟩
      rcases List.eq_nil_or_concat after with hnil | ⟨init, end_, hafter⟩
      · exact hnil
      · rw [hafter, List.concat_eq_append, ← List.cons_append, ← List.append_assoc] at hsplit
        have hold := (List.append_inj' hsplit rfl).1
        have hrun := (hlast before other init hold hterminal).2
        rw [hphase] at hrun
        cases hrun
    · simpa [hphase, ProducerPhase.held] using hspares
    · simpa [hphase] using haccepts
  | @send read hphase _ hroom =>
    have hgone : gone = [] := hflow.lost.resolve_right (by rw [hphase]; intro h; cases h)
    rw [hphase, hgone, List.append_nil] at hreads
    refine ⟨[], hflow.of_producer ⟨rfl, rfl, rfl, rfl, rfl⟩ (by simp) ?_ (.inl rfl) ?_ ?_ ?_⟩
    · cases hterminal : read.terminal <;> simpa [hterminal, ProducerPhase.sent] using hreads
    · intro before other after hsplit hother
      rw [sourceReads_silent] at hsplit
      have hnil := (hlast before other after hsplit hother).1
      refine ⟨hnil, ?_⟩
      rw [hreads, hnil, ProducerPhase.sent, ← List.append_assoc] at hsplit
      have hsame := (List.append_inj' hsplit rfl).2
      cases hsame
      dsimp only
      rw [if_pos hother]
      rfl
    · cases hterminal : read.terminal
      · simp only [hphase, ProducerPhase.held, reduceCtorEq, false_or] at hspares
        refine .inr ?_
        simp [ProducerPhase.held]
        omega
      · exact .inl (by simp)
    · intro hclosed
      have hstopped := haccepts hclosed
      rw [hphase] at hstopped
      cases hstopped
  | sendFails _ hdropped => exact (hlistens hdropped).elim
  | stop =>
    refine ⟨s.producer.sent ++ gone, hflow.of_producer ⟨rfl, rfl, rfl, rfl, rfl⟩ (by simp) ?_
      (.inr rfl) ?_ (.inl rfl) fun _ => rfl⟩
    · simp [hreads, ProducerPhase.sent]
    · intro before other after hsplit hother
      rw [sourceReads_silent] at hsplit
      exact ⟨(hlast before other after hsplit hother).1, rfl⟩
  | dropFree hphase =>
    refine ⟨gone, hflow.of_producer ⟨rfl, rfl, rfl, rfl, rfl⟩ (by simp) (by simpa using hreads)
      (.inr hphase) (by simpa using hlast) (.inl hphase) fun _ => hphase⟩
  | dropFilled hphase =>
    refine ⟨gone, hflow.of_producer ⟨rfl, rfl, rfl, rfl, rfl⟩ (by simp) (by simpa using hreads)
      (.inr hphase) (by simpa using hlast) (.inl hphase) fun _ => hphase⟩

/-- A step of the consumer leaves the producer, and how far the source has been read. -/
theorem ConsumerStep.keeps (h : ConsumerStep s a s') : s'.producer = s.producer ∧
    s'.accepts = s.accepts ∧ sourceReads (past ++ [a]) = sourceReads past := by
  cases h <;> exact ⟨rfl, rfl, by simp⟩

theorem got_returns (delivery : Delivery) :
    got (past ++ [.returns delivery]) = got past ++ delivery.items := by
  simp [got]

theorem got_of_quiet (h : deliveries (past ++ [a]) = deliveries past) :
    got (past ++ [a]) = got past := (clear_congr h).2.1

theorem invalids_returns (delivery : Delivery) : invalids (past ++ [.returns delivery]) =
    invalids past + if delivery.isInvalid then 1 else 0 := by
  simp [invalids, List.countP_append, List.countP_cons]

theorem Flow.of_consumer {past' : List Action} {seen' : List SourceRead}
    (hflow : Flow s past seen gone) (hproducer : s'.producer = s.producer)
    (haccepts : s'.accepts = s.accepts) (hsource : sourceReads past' = sourceReads past)
    (hqueue : seen' ++ s'.completed = seen ++ s.completed)
    (hgiven : seen'.flatMap SourceRead.items = got past' ++ s'.rest)
    (hfinished : s'.finished = true → s'.current = none ∧
      ((∃ before read, seen' = before ++ [read] ∧ read.result = .ok 0) ∨
        ∃ e, .failed e ∈ deliveries past'))
    (hspares : s.producer = .stopped ∨ s'.available.length + s.producer.held +
      s'.completed.length + s'.current.toList.length + invalids past' = buffers)
    (hwindow : s'.current = none → s'.position = s'.valid)
    (hwithin : s'.position ≤ s'.valid ∧ s'.valid ≤ bufferBytes) (hplaced : s'.Placed past') :
    Flow s' past' seen' gone := by
  refine ⟨?_, hgiven, ?_, ?_, hfinished, ?_, ?_, hwindow, hwithin, hplaced⟩
  · rw [hsource, hflow.reads, hproducer, ← List.append_assoc seen', hqueue]
    simp only [List.append_assoc]
  · rw [hproducer]
    exact hflow.lost
  · rw [hsource, hproducer]
    exact hflow.last
  · rw [hproducer]
    exact hspares
  · rw [haccepts, hproducer]
    exact hflow.accepts

/-- A return without bytes, at which the reader only becomes idle. -/
theorem Flow.returned {delivery : Delivery} (hflow : Flow s past seen gone)
    (hitems : delivery.items = []) (hvalid : delivery.isInvalid = false)
    (hsource : sourceReads (past ++ [.returns delivery]) = sourceReads past) :
    Flow { s with consumer := .idle } (past ++ [.returns delivery]) seen gone := by
  refine hflow.of_consumer rfl rfl hsource rfl ?_ ?_ ?_ hflow.window hflow.within trivial
  · rw [got_returns, hitems, List.append_nil]
    exact hflow.delivered
  · exact fun hdone => ⟨(hflow.finished hdone).1, (hflow.finished hdone).2.imp_right
      fun ⟨e, he⟩ => ⟨e, by simp [he]⟩⟩
  · rw [invalids_returns, hvalid]
    exact hflow.spares

/-- A result that ends the source is the last one, and the producer has stopped. -/
theorem Flow.ended {read : SourceRead} {rest : List SourceRead} (hflow : Flow s past seen gone)
    (hcompleted : s.completed = read :: rest) (hterminal : read.terminal = true) :
    rest = [] ∧ gone = [] ∧ s.producer = .stopped := by
  have hreads := hflow.reads
  rw [hcompleted, List.append_assoc, List.cons_append, List.cons_append] at hreads
  obtain ⟨hafter, hrunning⟩ := hflow.last _ _ _ hreads hterminal
  simp only [List.append_eq_nil_iff] at hafter
  obtain ⟨⟨hrest, hsent⟩, hgone⟩ := hafter
  refine ⟨hrest, hgone, ?_⟩
  cases hphase : s.producer <;> simp_all [ProducerPhase.running, ProducerPhase.sent]

theorem rest_of_none (h : s.current = none) : s.rest = [] := by
  unfold Reader.rest
  rw [h]

/-- A used buffer has nothing left. -/
theorem rest_of_used (h : s.position = s.valid) : s.rest = [] := by
  unfold Reader.rest
  cases s.current with
  | none => rfl
  | some buffer =>
    have hnil : (buffer.bytes.take s.valid).drop s.position = [] := by
      rw [List.drop_eq_nil_iff, List.length_take, h]
      exact Nat.min_le_left _ _
    dsimp only
    rw [hnil, List.map_nil]

/-- What a copy takes, and what it leaves. -/
theorem rest_copy {buffer : Buffer} (hcurrent : s.current = some buffer) (length : Nat) :
    s.rest = (((buffer.bytes.take s.valid).drop s.position).take length).map .byte ++
      ((buffer.bytes.take s.valid).drop
        (s.position + min length (s.valid - s.position))).map .byte := by
  unfold Reader.rest
  rw [hcurrent, ← List.map_append]
  dsimp only
  congr 1
  by_cases hlength : length ≤ s.valid - s.position
  · rw [Nat.min_eq_left hlength, ← List.drop_drop, List.take_append_drop]
  · have hlength' : ((buffer.bytes.take s.valid).drop s.position).length ≤ length := by
      rw [List.length_drop, List.length_take]
      omega
    have hnil : (buffer.bytes.take s.valid).drop
        (s.position + min length (s.valid - s.position)) = [] := by
      rw [List.drop_eq_nil_iff, List.length_take]
      omega
    rw [List.take_of_length_le hlength', hnil, List.append_nil]

theorem ConsumerStep.flow (h : ConsumerStep s a s') (hflow : Flow s past seen gone)
    (hcall : ∀ output, a = .call output → output ≠ [] → Clear past)
    (hlistens : s'.consumer ≠ .dropped) : ∃ seen', Flow s' (past ++ [a]) seen' gone := by
  have hgiven := hflow.delivered
  have hspares := hflow.spares
  have hplaced := hflow.placed
  have hfinished := hflow.finished
  obtain ⟨hproducer, haccepts, hsource⟩ := @ConsumerStep.keeps _ _ past _ h
  unfold Reader.Placed at hplaced
  cases h with
  | call hphase =>
    obtain ⟨hclear, hgot, hinvalids⟩ := clear_congr (deliveries_call _)
    refine ⟨seen, hflow.of_consumer rfl rfl hsource rfl ?_ ?_ ?_ hflow.window hflow.within ?_⟩
    · rw [hgot]
      exact hgiven
    · rw [deliveries_call]
      exact hfinished
    · rw [hinvalids]
      exact hspares
    · exact fun houtput => hclear.mpr (hcall _ rfl houtput)
  | empty hphase =>
    exact ⟨seen, hflow.returned rfl rfl hsource⟩
  | finished hphase houtput hdone =>
    exact ⟨seen, hflow.returned rfl rfl hsource⟩
  | fetch hphase houtput hmore hused hcurrent =>
    rw [hphase] at hplaced
    obtain ⟨_, hgot, hinvalids⟩ := clear_congr (@deliveries_silent past)
    refine ⟨seen, hflow.of_consumer rfl rfl hsource rfl ?_ ?_ ?_ hflow.window hflow.within
      ⟨hcurrent, hmore, ?_, houtput⟩⟩
    · rw [hgot]
      exact hgiven
    · rw [deliveries_silent]
      exact hfinished
    · rw [hinvalids]
      exact hspares
    · rw [hinvalids]
      exact (hplaced houtput).spare
  | recycle hphase houtput hmore hused hcurrent hopen hroom =>
    rw [hphase] at hplaced
    obtain ⟨_, hgot, hinvalids⟩ := clear_congr (@deliveries_silent past)
    refine ⟨seen, hflow.of_consumer rfl rfl hsource rfl ?_ ?_ ?_ (fun _ => hused) hflow.within
      ⟨rfl, hmore, ?_, houtput⟩⟩
    · rw [hgot, hgiven, rest_of_used hused, rest_of_none rfl]
    · intro hdone
      rw [hmore] at hdone
      cases hdone
    · rw [hinvalids]
      refine hspares.imp_right fun hcount => ?_
      simp only [hcurrent, Option.toList_some, Option.toList_none, List.length_append,
        List.length_singleton, List.length_nil] at hcount ⊢
      omega
    · rw [hinvalids]
      exact (hplaced houtput).spare
  | discard hphase houtput hmore hused hcurrent hclosed =>
    rw [hphase] at hplaced
    obtain ⟨_, hgot, hinvalids⟩ := clear_congr (@deliveries_silent past)
    refine ⟨seen, hflow.of_consumer rfl rfl hsource rfl ?_ ?_ (.inl (hflow.accepts hclosed))
      (fun _ => hused) hflow.within ⟨rfl, hmore, ?_, houtput⟩⟩
    · rw [hgot, hgiven, rest_of_used hused, rest_of_none rfl]
    · intro hdone
      rw [hmore] at hdone
      cases hdone
    · rw [hinvalids]
      exact (hplaced houtput).spare
  | resume hphase houtput hmore hused =>
    obtain ⟨_, hgot, hinvalids⟩ := clear_congr (@deliveries_silent past)
    refine ⟨seen, hflow.of_consumer rfl rfl hsource rfl ?_ ?_ ?_ hflow.window hflow.within ?_⟩
    · rw [hgot]
      exact hgiven
    · rw [deliveries_silent]
      exact hfinished
    · rw [hinvalids]
      exact hspares
    · exact ⟨Option.isSome_iff_ne_none.mpr fun hnone => hused (hflow.window hnone), houtput,
        hused⟩
  | @eof output read rest hphase hcompleted hresult =>
    rw [hphase] at hplaced
    have hterminal : read.terminal = true := by simp [SourceRead.terminal, hresult]
    refine ⟨seen ++ [read], hflow.of_consumer rfl rfl hsource ?_ ?_ ?_
      (.inl (hflow.ended hcompleted hterminal).2.2) hflow.window hflow.within trivial⟩
    · rw [hcompleted, List.append_assoc]
      rfl
    · rw [List.flatMap_append, hgiven, got_returns]
      simp [Delivery.items, SourceRead.items, hresult, Reader.rest, hplaced.1]
    · exact fun _ => ⟨hplaced.1, .inl ⟨seen, read, rfl, hresult⟩⟩
  | @fail output read rest e hphase hcompleted hresult =>
    rw [hphase] at hplaced
    have hterminal : read.terminal = true := by simp [SourceRead.terminal, hresult]
    refine ⟨seen ++ [read], hflow.of_consumer rfl rfl hsource ?_ ?_ ?_
      (.inl (hflow.ended hcompleted hterminal).2.2) hflow.window hflow.within trivial⟩
    · rw [hcompleted, List.append_assoc]
      rfl
    · rw [List.flatMap_append, hgiven, got_returns]
      simp [Delivery.items, SourceRead.items, hresult, Reader.rest, hplaced.1]
    · exact fun _ => ⟨hplaced.1, .inr ⟨e, by simp⟩⟩
  | @accept output read rest count hphase hcompleted hresult hpos hcount =>
    rw [hphase] at hplaced
    obtain ⟨_, hgot, hinvalids⟩ := clear_congr (@deliveries_silent past)
    refine ⟨seen ++ [read], hflow.of_consumer rfl rfl hsource ?_ ?_ ?_ ?_ (fun hnone => ?_)
      ⟨Nat.zero_le _, hcount⟩ ⟨rfl, hplaced.2.2.2, Nat.ne_of_lt hpos⟩⟩
    · rw [hcompleted, List.append_assoc]
      rfl
    · rw [List.flatMap_append, hgiven, hgot, rest_of_none hplaced.1]
      simp [SourceRead.items, hresult, hcount, Reader.rest]
    · intro hdone
      rw [hplaced.2.1] at hdone
      cases hdone
    · rw [hinvalids]
      refine hspares.imp_right fun hcount => ?_
      simp only [hplaced.1, hcompleted, Option.toList_some, Option.toList_none,
        List.length_cons, List.length_nil] at hcount ⊢
      omega
    · cases hnone
  | @reject output read rest count hphase hcompleted hresult hcount =>
    rw [hphase] at hplaced
    refine ⟨seen ++ [read], hflow.of_consumer rfl rfl hsource ?_ ?_ ?_ ?_ hflow.window hflow.within trivial⟩
    · rw [hcompleted, List.append_assoc]
      rfl
    · rw [List.flatMap_append, hgiven, got_returns]
      simp [Delivery.items, SourceRead.items, hresult, Nat.not_le.mpr hcount, Reader.rest,
        hplaced.1]
    · intro hdone
      rw [hplaced.2.1] at hdone
      cases hdone
    · rw [invalids_returns]
      refine hspares.imp_right fun hcount => ?_
      simp only [hcompleted, List.length_cons, Delivery.isInvalid, if_true] at hcount ⊢
      omega
  | broken hphase hcompleted hfills =>
    exact ⟨seen, hflow.returned rfl rfl hsource⟩
  | @copy output buffer hphase hcurrent =>
    have hwithin := hflow.within
    refine ⟨seen, hflow.of_consumer rfl rfl hsource rfl ?_ ?_ ?_ (fun hnone => ?_)
      ⟨by dsimp only; omega, hwithin.2⟩ trivial⟩
    · rw [hgiven, got_returns, rest_copy hcurrent output.length, List.append_assoc]
      simp [Delivery.items, Reader.rest, hcurrent]
    · intro hdone
      have hnone := (hfinished hdone).1
      rw [hcurrent] at hnone
      cases hnone
    · rw [invalids_returns]
      exact hspares
    · rw [hcurrent] at hnone
      cases hnone
  | noBuffer hphase hcurrent =>
    rw [hphase, hcurrent] at hplaced
    cases hplaced.1
  | drop hphase => exact (hlistens rfl).elim

/-! ## Runs -/

/-- What holds after every careful run: the flow, or what it has left when the reader is gone. -/
def Invariant (s : Reader) (past : List Action) : Prop :=
  (s.consumer = .dropped ∧ got past <+: given past) ∨
    (s.consumer ≠ .dropped ∧ ∃ seen gone, Flow s past seen gone)

theorem Flow.got_le_given (hflow : Flow s past seen gone) : got past <+: given past := by
  unfold given
  rw [hflow.reads, List.flatMap_append, List.flatMap_append, hflow.delivered, List.append_assoc,
    List.append_assoc]
  exact List.prefix_append _ _

theorem given_le_append (past : List Action) (a : Action) : given past <+: given (past ++ [a]) := by
  simp only [given, sourceReads, List.filterMap_append, List.flatMap_append]
  exact List.prefix_append _ _

theorem ProducerStep.keeps (h : ProducerStep s a s') :
    s'.consumer = s.consumer ∧ deliveries (past ++ [a]) = deliveries past := by
  cases h <;> exact ⟨rfl, by simp⟩

theorem Step.invariant (h : Step s a s') (hinv : Invariant s past)
    (hcall : ∀ output, a = .call output → output ≠ [] → Clear past) :
    Invariant s' (past ++ [a]) := by
  cases h with
  | producer h =>
    obtain ⟨hconsumer, hquiet⟩ := @ProducerStep.keeps _ _ past _ h
    rcases hinv with ⟨hdropped, hfront⟩ | ⟨hlistens, seen, gone, hflow⟩
    · refine .inl ⟨hconsumer.trans hdropped, ?_⟩
      rw [got_of_quiet hquiet]
      exact hfront.trans (given_le_append past a)
    · obtain ⟨gone', hflow'⟩ := h.flow hflow hlistens
      exact .inr ⟨by rw [hconsumer]; exact hlistens, seen, gone', hflow'⟩
  | consumer h =>
    rcases hinv with ⟨hdropped, _⟩ | ⟨_, seen, gone, hflow⟩
    · cases h <;> simp_all
    · by_cases hdrop : s'.consumer = .dropped
      · have hfront := hflow.got_le_given
        cases h with
        | drop hphase =>
          refine .inl ⟨rfl, ?_⟩
          rw [got_of_quiet deliveries_silent]
          exact hfront.trans (given_le_append past .silent)
        | _ => cases hdrop
      · obtain ⟨seen', hflow'⟩ := h.flow hflow hcall hdrop
        exact .inr ⟨hdrop, seen', gone, hflow'⟩

theorem Careful.snoc (h : Careful (past ++ [a])) : Careful past ∧
    ∀ output, a = .call output → output ≠ [] → Clear past := by
  refine ⟨fun before output after hsplit houtput => ?_, fun output ha houtput => ?_⟩
  · refine h before output (after ++ [a]) ?_ houtput
    rw [hsplit, List.append_assoc]
    rfl
  · exact h past output [] (by rw [ha]) houtput

theorem new_flow (first second : Buffer) : Flow (.new first second) [] [] [] where
  reads := rfl
  delivered := rfl
  lost := .inl rfl
  last := fun before read after h => by simp [sourceReads] at h
  finished := fun h => by cases h
  spares := .inr rfl
  accepts := fun h => by cases h
  window := fun _ => rfl
  within := ⟨Nat.le_refl 0, Nat.zero_le _⟩
  placed := trivial

theorem careful_run {first second : Buffer} {history : List Action}
    (hrun : Run Step (.new first second) history s) (hcareful : Careful history) :
    Invariant s history := by
  have hinv := hrun.history (I := fun s past => Careful past → Invariant s past)
    (fun s a s' past hinv hstep hcareful =>
      hstep.invariant (hinv hcareful.snoc.1) hcareful.snoc.2)
    (fun _ => .inr ⟨(fun h => by cases h), [], [], new_flow first second⟩)
  rw [List.nil_append] at hinv
  exact hinv hcareful

/-- A copy into a buffer with room is not empty. -/
theorem Flow.copies (hflow : Flow s past seen gone) {output : List UInt8} {buffer : Buffer}
    (hphase : s.consumer = .copying output) :
    (((buffer.bytes.take s.valid).drop s.position).take output.length).length ≠ 0 := by
  have hplaced := hflow.placed
  have hwithin := hflow.within
  rw [Reader.Placed, hphase] at hplaced
  have houtput : output.length ≠ 0 := fun h => hplaced.2.1 (List.eq_nil_of_length_eq_zero h)
  have hused := hplaced.2.2
  rw [List.length_take, List.length_drop, List.length_take, buffer.size]
  omega

/-- An `Ok(0)` to a buffer with room comes behind everything that the source gave, and the source
has ended. -/
theorem Flow.zero {delivery : Delivery} (hflow : Flow s past seen gone)
    (h : Step s (.returns delivery) s') (hroom : s.consumer.output ≠ [])
    (hzero : delivery.result = .ok 0) :
    got past = given past ∧ ∃ read ∈ sourceReads past, read.result = .ok 0 := by
  have hplaced := hflow.placed
  have hgiven := hflow.delivered
  have hreads := hflow.reads
  unfold Reader.Placed at hplaced
  cases h with
  | producer h => cases h
  | consumer h =>
    cases h with
    | empty hphase =>
      rw [hphase] at hroom
      exact (hroom rfl).elim
    | finished hphase houtput hdone =>
      rw [hphase] at hplaced
      obtain ⟨hcurrent, hlast⟩ := hflow.finished hdone
      rcases hlast with ⟨before, read, hseen, hresult⟩ | ⟨e, he⟩
      · have hterminal : read.terminal = true := by simp [SourceRead.terminal, hresult]
        have hsplit := hreads
        rw [hseen, List.append_assoc, List.append_assoc, List.singleton_append] at hsplit
        have hnil := (hflow.last _ _ _ hsplit hterminal).1
        have hall : sourceReads past = seen := by rw [hsplit, hnil, hseen]
        refine ⟨?_, read, ?_, hresult⟩
        · rw [given, hall, hgiven, rest_of_none hcurrent, List.append_nil]
        · rw [hall, hseen]
          simp
      · exact ((hplaced houtput).sound e he).elim
    | @eof output read rest hphase hcompleted hresult =>
      rw [hphase] at hplaced
      have hterminal : read.terminal = true := by simp [SourceRead.terminal, hresult]
      obtain ⟨hrest, hgone, hstopped⟩ := hflow.ended hcompleted hterminal
      have hall : sourceReads past = seen ++ [read] := by
        rw [hreads, hcompleted, hrest, hgone, hstopped]
        simp [ProducerPhase.sent]
      refine ⟨?_, read, by rw [hall]; simp, hresult⟩
      rw [given, hall, List.flatMap_append, hgiven, rest_of_none hplaced.1]
      simp [SourceRead.items, hresult]
    | fail hphase hcompleted hresult => cases hzero
    | reject hphase hcompleted hresult hcount => cases hzero
    | broken hphase hcompleted hfills => cases hzero
    | copy hphase hcurrent => exact (hflow.copies hphase (Except.ok.inj hzero)).elim

/-- With a buffer to spare, one side can go on. -/
theorem Flow.moves (hflow : Flow s past seen gone) : ¬ (s.ProducerBlocked ∧ s.ConsumerBlocked) := by
  rintro ⟨⟨_, hproducer⟩, hconsumer⟩
  have hrunning : s.producer ≠ .stopped := by
    rcases hproducer with ⟨hphase, _⟩ | ⟨read, hphase, _⟩ <;>
      (rw [hphase]; intro h; cases h)
  have hcount := hflow.spares.resolve_left hrunning
  have hplaced := hflow.placed
  unfold Reader.Placed at hplaced
  have htwo : buffers = 2 := rfl
  rcases hproducer with ⟨hphase, havailable⟩ | ⟨read, hphase, hfull⟩ <;>
    rcases hconsumer with ⟨output, hconsumer, hcompleted, _⟩ |
      ⟨output, hconsumer, hcurrent, _, hspare⟩
  · rw [hconsumer] at hplaced
    simp only [havailable, hphase, hcompleted, hplaced.1, ProducerPhase.held, List.length_nil,
      Option.toList_none] at hcount
    have hinvalids := hplaced.2.2.1
    omega
  · rw [havailable] at hspare
    simp [buffers] at hspare
  · rw [hcompleted] at hfull
    simp [buffers] at hfull
  · simp only [hphase, ProducerPhase.held] at hcount
    omega

/-- What a reader delivers after a run: what the source gave, in order and with each error once at
its position; whatever comes back as `Ok(0)` to a buffer with room comes behind all of that, after
the end of the source; and never both sides blocked. -/
structure Delivers (s : Reader) (history : List Action) : Prop where
  inOrder : got history <+: given history
  ends : ∀ delivery s', Step s (.returns delivery) s' → s.consumer.output ≠ [] →
    delivery.result = .ok 0 →
    got history = given history ∧ ∃ read ∈ sourceReads history, read.result = .ok 0
  moves : ¬ (s.ProducerBlocked ∧ s.ConsumerBlocked)

/-- While the consumer reads on only until an error of the source, and with a buffer to spare, the
reader delivers the source: what it returns is a front of what the source gave, it reports an end
only where the source did, and one of the two threads can always go on. -/
theorem prefetch_careful {first second : Buffer} {history : List Action} {s : Reader}
    (hrun : Run Step (.new first second) history s) (hcareful : Careful history) :
    Delivers s history := by
  rcases careful_run hrun hcareful with ⟨hdropped, hfront⟩ | ⟨_, seen, gone, hflow⟩
  · refine ⟨hfront, fun delivery s' _ hroom => ?_, fun hblocked => hblocked.1.1 hdropped⟩
    rw [hdropped] at hroom
    exact (hroom rfl).elim
  · exact ⟨hflow.got_le_given, fun delivery s' hstep => hflow.zero hstep, hflow.moves⟩

/-- Nothing before the last delivery was an error. -/
theorem careful_of_clear {history : List Action} (h : Clear history) : Careful history := by
  intro before output after hsplit _
  have hdeliveries : deliveries history = deliveries before ++ deliveries (.call output :: after) := by
    rw [hsplit, deliveries, List.filterMap_append]
    rfl
  refine ⟨fun e he => h.sound e ?_, ?_⟩
  · rw [hdeliveries]
    exact List.mem_append_left _ he
  · have hspare := h.spare
    rw [invalids, hdeliveries, List.countP_append] at hspare
    exact Nat.lt_of_le_of_lt (Nat.le_add_right _ _) hspare

def zeros : Buffer := ⟨.replicate bufferBytes 0, List.length_replicate⟩

/-- A source that reads one byte, which the consumer takes. -/
theorem prefetch_careful_oneByte : ∃ history s, Run Step (.new zeros zeros) history s ∧
    s.position = 1 ∧ Delivers s history := by
  have hrun : ∃ history s, Run Step (.new zeros zeros) history s ∧ s.position = 1 ∧
      Clear history :=
    ⟨_, _, .cons (.producer (.take rfl rfl)) <|
      .cons (.producer (@ProducerStep.read _ _ ⟨zeros, .ok 1⟩ rfl)) <|
      .cons (.producer (.send rfl (fun h => by cases h) (by decide))) <|
      .cons (.consumer (@ConsumerStep.call _ [7] rfl)) <|
      .cons (.consumer (.fetch rfl (by decide) rfl rfl rfl)) <|
      .cons (.consumer (.accept rfl rfl rfl (by decide) (by decide))) <|
      .one (.consumer (.copy rfl rfl)), rfl, ⟨fun e he => by simp [deliveries, Action.delivery] at he,
      by decide⟩⟩
  obtain ⟨history, s, hrun, hposition, hclear⟩ := hrun
  exact ⟨history, s, hrun, hposition, prefetch_careful hrun (careful_of_clear hclear)⟩

/-- The source is interrupted once. A consumer that tries again is told that the source has
ended. -/
theorem not_delivers :
    ¬ ∀ history s, Run Step (.new zeros zeros) history s → Delivers s history := by
  intro h
  have hends := (h _ _ <|
    .cons (.producer (.take rfl rfl)) <|
    .cons (.producer (@ProducerStep.read _ _ ⟨zeros, .error { kind := .interrupted }⟩ rfl)) <|
    .cons (.producer (.send rfl (fun h => by cases h) (by decide))) <|
    .cons (.consumer (@ConsumerStep.call _ [7] rfl)) <|
    .cons (.consumer (.fetch rfl (by decide) rfl rfl rfl)) <|
    .cons (.consumer (.fail rfl rfl rfl)) <|
    .one (.consumer (@ConsumerStep.call _ [7] rfl))).ends .zero _
      (.consumer (.finished rfl (by decide) rfl)) (by decide) rfl
  obtain ⟨_, read, hread, hresult⟩ := hends
  simp only [sourceReads, List.filterMap_cons, List.filterMap_nil, Action.read,
    List.mem_singleton] at hread
  rw [hread] at hresult
  cases hresult

/-- After two counts beyond their buffers no buffer is left, and both sides wait for the other. -/
theorem blocked_of_invalid : ∃ history s, Run Step (.new zeros zeros) history s ∧
    s.ProducerBlocked ∧ s.ConsumerBlocked :=
  ⟨_, _, .cons (.producer (.take rfl rfl)) <|
    .cons (.producer (@ProducerStep.read _ _ ⟨zeros, .ok (bufferBytes + 1)⟩ rfl)) <|
    .cons (.producer (.send rfl (fun h => by cases h) (by decide))) <|
    .cons (.producer (.take rfl rfl)) <|
    .cons (.producer (@ProducerStep.read _ _ ⟨zeros, .ok (bufferBytes + 1)⟩ rfl)) <|
    .cons (.producer (.send rfl (fun h => by cases h) (by decide))) <|
    .cons (.consumer (@ConsumerStep.call _ [7] rfl)) <|
    .cons (.consumer (.fetch rfl (by decide) rfl rfl rfl)) <|
    .cons (.consumer (.reject rfl rfl rfl (by decide))) <|
    .cons (.consumer (@ConsumerStep.call _ [7] rfl)) <|
    .cons (.consumer (.fetch rfl (by decide) rfl rfl rfl)) <|
    .cons (.consumer (.reject rfl rfl rfl (by decide))) <|
    .cons (.consumer (@ConsumerStep.call _ [7] rfl)) <|
    .one (.consumer (.fetch rfl (by decide) rfl rfl rfl)),
    ⟨(fun h => by cases h), .inl ⟨rfl, rfl⟩⟩, .inl ⟨_, rfl, rfl, rfl⟩⟩

end EwfImage.Cli.Prefetch
