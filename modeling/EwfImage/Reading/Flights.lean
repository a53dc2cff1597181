import EwfImage.Lib.Runs
import EwfImage.Reading.Reader

/-!
# Flights of chunks

Clones of an image read chunks at the same time. A reader that misses a chunk in the
cache registers a flight for it and decodes; the others wait until the flight is
complete and look in the cache again. The cache, the table of flights and the flag of a
flight have a lock each, so one step of a reader is what it does under one lock.

The main result is `readChunk_flights`, about every reachable state of any number of readers.
Readers of one chunk decode it one at a time; a flight is removed by its owner only and only
when it is marked; a waiting reader can always look again or wait for an owner that has a step
to make, so nobody waits for ever; and what a reader returns is what decoding gave. The cache is
one of a library with the laws of `LruCache.Interface`; it may evict anything at any step, and
decoding may fail. The chunks and what decoding gives for them are parameters.
-/

namespace EwfImage.Reading

open LruCache Runs

/-- `ChunkFlight`, with the reader that registered it and its chunk. -/
structure ChunkFlight where
  owner : Nat
  chunkId : Nat
  complete : Bool
  deriving DecidableEq

/-- Where a reader stands in `read_chunk`. Flights are numbered as they are registered. -/
inductive Phase
  | idle
  /-- At the top of the loop. -/
  | lookup (chunkId : Nat)
  /-- The cache does not have the chunk. -/
  | register (chunkId : Nat)
  /-- At the flag of a flight of another reader. -/
  | await (chunkId flight : Nat)
  /-- Asleep until the flight is announced. -/
  | asleep (chunkId flight : Nat)
  | decode (chunkId flight : Nat)
  | store (chunkId flight : Nat) (decoded : Bytes)
  | finish (chunkId flight : Nat) (decoded : Result Bytes)
  | remove (chunkId flight : Nat) (decoded : Result Bytes)
  | returned (chunkId : Nat) (decoded : Result Bytes)
  deriving DecidableEq

namespace Phase

/-- The flight that the reader has registered and not removed yet. -/
def owns : Phase → Option (Nat × Nat)
  | .decode chunkId flight | .store chunkId flight _ | .finish chunkId flight _
  | .remove chunkId flight _ => some (chunkId, flight)
  | _ => none

/-- The owner has marked its flight as complete. -/
def announced : Phase → Bool
  | .remove _ _ _ => true
  | _ => false

/-- The flight that the reader waits for. -/
def awaits : Phase → Option (Nat × Nat)
  | .await chunkId flight | .asleep chunkId flight => some (chunkId, flight)
  | _ => none

/-- What the decode of the reader returned, until the call is over. -/
def outcome : Phase → Option (Nat × Result Bytes)
  | .store chunkId _ decoded => some (chunkId, .ok decoded)
  | .finish chunkId _ decoded | .remove chunkId _ decoded => some (chunkId, decoded)
  | _ => none

/-- `notify_all` of a flight. -/
def notified (flight : Nat) : Phase → Phase
  | .asleep chunkId awaited =>
    if awaited = flight then .await chunkId awaited else .asleep chunkId awaited
  | phase => phase

@[simp] theorem owns_notified (flight : Nat) (phase : Phase) :
    (phase.notified flight).owns = phase.owns := by
  cases phase with
  | asleep chunkId awaited =>
    simp only [notified]
    split <;> rfl
  | _ => rfl

@[simp] theorem announced_notified (flight : Nat) (phase : Phase) :
    (phase.notified flight).announced = phase.announced := by
  cases phase with
  | asleep chunkId awaited =>
    simp only [notified]
    split <;> rfl
  | _ => rfl

@[simp] theorem awaits_notified (flight : Nat) (phase : Phase) :
    (phase.notified flight).awaits = phase.awaits := by
  cases phase with
  | asleep chunkId awaited =>
    simp only [notified]
    split <;> rfl
  | _ => rfl

@[simp] theorem outcome_notified (flight : Nat) (phase : Phase) :
    (phase.notified flight).outcome = phase.outcome := by
  cases phase with
  | asleep chunkId awaited =>
    simp only [notified]
    split <;> rfl
  | _ => rfl

theorem asleep_of_notified {flight : Nat} {phase : Phase} {chunkId awaited : Nat}
    (h : phase.notified flight = .asleep chunkId awaited) :
    phase = .asleep chunkId awaited ∧ awaited ≠ flight := by
  cases phase with
  | asleep chunkId' awaited' =>
    simp only [notified] at h
    split at h
    · cases h
    · rename_i hne
      cases h
      exact ⟨rfl, hne⟩
  | _ => cases h

theorem returned_of_notified {flight : Nat} {phase : Phase} {chunkId : Nat}
    {decoded : Result Bytes} (h : phase.notified flight = .returned chunkId decoded) :
    phase = .returned chunkId decoded := by
  cases phase with
  | asleep chunkId' awaited' =>
    simp only [notified] at h
    split at h <;> cases h
  | _ => exact h

end Phase

variable {lru : Interface}

/-- What the readers of an image share, where each of them stands, and every outcome that a
decode has had so far. -/
structure Flights (lru : Interface) where
  chunkCache : lru.Cache Nat Bytes
  chunkInFlight : Nat → Option Nat
  flights : List ChunkFlight
  readers : Nat → Phase
  outcomes : List (Nat × Result Bytes)

namespace Flights

/-- No chunk is cached, and no one reads. -/
def initial (lru : Interface) (capacity : Nat) : Flights lru where
  chunkCache := lru.new (some capacity)
  chunkInFlight := fun _ => none
  flights := []
  readers := fun _ => .idle
  outcomes := []

variable (s : Flights lru)

def goto (reader : Nat) (phase : Phase) : Flights lru :=
  { s with readers := Function.update s.readers reader phase }

/-- The reader registers a flight, and decodes. -/
def registered (reader chunkId : Nat) : Flights lru :=
  { s with
      chunkInFlight := Function.update s.chunkInFlight chunkId (some s.flights.length)
      flights := s.flights ++ [ChunkFlight.mk reader chunkId false] }.goto reader
    (.decode chunkId s.flights.length)

def complete (flight : Nat) : Flights lru :=
  { s with
    flights := s.flights.modify flight fun flight => { flight with complete := true }
    readers := fun reader => (s.readers reader).notified flight }

end Flights

inductive FlightLabel
  /-- A step of a reader. -/
  | reader (reader : Nat)
  /-- The cache drops entries. -/
  | evict

/-- One step of a reader of `read_chunk`, or of the cache. A decode may return anything. -/
inductive FlightStep : Flights lru → FlightLabel → Flights lru → Prop
  | call {s : Flights lru} {reader : Nat} (h : s.readers reader = .idle) (chunkId : Nat) :
      FlightStep s (.reader reader) (s.goto reader (.lookup chunkId))
  /-- An abort has been signaled. -/
  | refuse {s : Flights lru} {reader : Nat} (h : s.readers reader = .idle) (chunkId : Nat) :
      FlightStep s (.reader reader) (s.goto reader (.returned chunkId (.error .aborted)))
  | hit {s : Flights lru} {reader chunkId : Nat} {cached : Bytes}
      (h : s.readers reader = .lookup chunkId)
      (hcache : (lru.get s.chunkCache chunkId).1 = some cached) :
      FlightStep s (.reader reader)
        ({ s with chunkCache := (lru.get s.chunkCache chunkId).2 }.goto reader
          (.returned chunkId (.ok cached)))
  | miss {s : Flights lru} {reader chunkId : Nat}
      (h : s.readers reader = .lookup chunkId) (hcache : (lru.get s.chunkCache chunkId).1 = none) :
      FlightStep s (.reader reader) (s.goto reader (.register chunkId))
  | join {s : Flights lru} {reader chunkId flight : Nat}
      (h : s.readers reader = .register chunkId)
      (hflight : s.chunkInFlight chunkId = some flight) :
      FlightStep s (.reader reader) (s.goto reader (.await chunkId flight))
  | register {s : Flights lru} {reader chunkId : Nat}
      (h : s.readers reader = .register chunkId) (hflight : s.chunkInFlight chunkId = none) :
      FlightStep s (.reader reader) (s.registered reader chunkId)
  /-- The flight is not complete; the flag is checked again under the lock that `wait` gives up. -/
  | sleep {s : Flights lru} {reader chunkId flight : Nat} {found : ChunkFlight}
      (h : s.readers reader = .await chunkId flight)
      (hflight : s.flights[flight]? = some found) (hcomplete : found.complete = false) :
      FlightStep s (.reader reader) (s.goto reader (.asleep chunkId flight))
  /-- The flight is complete; the cache may have the chunk now. -/
  | again {s : Flights lru} {reader chunkId flight : Nat} {found : ChunkFlight}
      (h : s.readers reader = .await chunkId flight)
      (hflight : s.flights[flight]? = some found) (hcomplete : found.complete = true) :
      FlightStep s (.reader reader) (s.goto reader (.lookup chunkId))
  /-- A spurious wake-up. -/
  | wake {s : Flights lru} {reader chunkId flight : Nat}
      (h : s.readers reader = .asleep chunkId flight) :
      FlightStep s (.reader reader) (s.goto reader (.await chunkId flight))
  | decoded {s : Flights lru} {reader chunkId flight : Nat}
      (h : s.readers reader = .decode chunkId flight) (decoded : Bytes) :
      FlightStep s (.reader reader)
        ({ s with outcomes := (chunkId, .ok decoded) :: s.outcomes }.goto reader
          (.store chunkId flight decoded))
  | failed {s : Flights lru} {reader chunkId flight : Nat}
      (h : s.readers reader = .decode chunkId flight) (e : EwfError) :
      FlightStep s (.reader reader)
        ({ s with outcomes := (chunkId, .error e) :: s.outcomes }.goto reader
          (.finish chunkId flight (.error e)))
  | store {s : Flights lru} {reader chunkId flight : Nat} {decoded : Bytes}
      (h : s.readers reader = .store chunkId flight decoded) :
      FlightStep s (.reader reader)
        ({ s with chunkCache := lru.put s.chunkCache chunkId decoded }.goto reader
          (.finish chunkId flight (.ok decoded)))
  | finish {s : Flights lru} {reader chunkId flight : Nat} {decoded : Result Bytes}
      (h : s.readers reader = .finish chunkId flight decoded) :
      FlightStep s (.reader reader)
        ((s.complete flight).goto reader (.remove chunkId flight decoded))
  | remove {s : Flights lru} {reader chunkId flight : Nat} {decoded : Result Bytes}
      (h : s.readers reader = .remove chunkId flight decoded) :
      FlightStep s (.reader reader)
        ({ s with chunkInFlight := Function.update s.chunkInFlight chunkId none }.goto reader
          (.returned chunkId decoded))
  /-- The caller takes the result. -/
  | leave {s : Flights lru} {reader chunkId : Nat} {decoded : Result Bytes}
      (h : s.readers reader = .returned chunkId decoded) :
      FlightStep s (.reader reader) (s.goto reader .idle)
  | evict {s : Flights lru} {chunkCache : lru.Cache Nat Bytes}
      (h : ∀ entry ∈ lru.entries chunkCache, entry ∈ lru.entries s.chunkCache) :
      FlightStep s .evict { s with chunkCache }

/-! ## What every step keeps -/

/-- What the readers know of each other's flights and of the outcomes so far. -/
structure Flights.Coherent (s : Flights lru) : Prop where
  owned : ∀ {reader chunkId flight}, (s.readers reader).owns = some (chunkId, flight) →
    s.chunkInFlight chunkId = some flight ∧
      s.flights[flight]? = some ⟨reader, chunkId, (s.readers reader).announced⟩
  registered : ∀ {chunkId flight}, s.chunkInFlight chunkId = some flight →
    ∃ reader, (s.readers reader).owns = some (chunkId, flight)
  pending : ∀ {flight found}, s.flights[flight]? = some found → found.complete = false →
    (s.readers found.owner).owns = some (found.chunkId, flight)
  awaited : ∀ {reader chunkId flight}, (s.readers reader).awaits = some (chunkId, flight) →
    ∃ found, s.flights[flight]? = some found ∧ found.chunkId = chunkId
  asleep : ∀ {reader chunkId flight}, s.readers reader = .asleep chunkId flight →
    ∃ found, s.flights[flight]? = some found ∧ found.complete = false
  cached : ∀ {entry}, entry ∈ lru.entries s.chunkCache → (entry.1, .ok entry.2) ∈ s.outcomes
  decoded : ∀ {reader outcome}, (s.readers reader).outcome = some outcome → outcome ∈ s.outcomes
  returned : ∀ {reader chunkId decoded}, s.readers reader = .returned chunkId decoded →
    (chunkId, decoded) ∈ s.outcomes ∨ decoded = .error .aborted

section Coherent

open Flights

variable {s s' : Flights lru} {reader other chunkId flight : Nat} {phase : Phase}

@[simp] theorem Flights.goto_self : (s.goto reader phase).readers reader = phase :=
  Function.update_self ..

theorem Flights.goto_other (h : other ≠ reader) :
    (s.goto reader phase).readers other = s.readers other :=
  Function.update_of_ne h ..

theorem Flights.coherent_initial (capacity : Nat) : (initial lru capacity).Coherent where
  owned h := (by cases h)
  registered h := (by cases h)
  pending h := (by cases h)
  awaited h := (by cases h)
  asleep h := (by cases h)
  cached h := (Interface.not_mem_new _ _ h).elim
  decoded h := (by cases h)
  returned h := (by cases h)

/-- A reader that keeps its flight moves on. -/
theorem Flights.Coherent.goto (h : s.Coherent) (howns : phase.owns = (s.readers reader).owns)
    (hannounced : phase.announced = (s.readers reader).announced)
    (hawaits : ∀ chunkId flight, phase.awaits = some (chunkId, flight) →
      ∃ found, s.flights[flight]? = some found ∧ found.chunkId = chunkId)
    (hasleep : ∀ chunkId flight, phase = .asleep chunkId flight →
      ∃ found, s.flights[flight]? = some found ∧ found.complete = false)
    (houtcome : ∀ outcome, phase.outcome = some outcome → outcome ∈ s.outcomes)
    (hreturned : ∀ chunkId decoded, phase = .returned chunkId decoded →
      (chunkId, decoded) ∈ s.outcomes ∨ decoded = .error .aborted) :
    (s.goto reader phase).Coherent := by
  have hsame : ∀ other, ((s.goto reader phase).readers other).owns = (s.readers other).owns ∧
      ((s.goto reader phase).readers other).announced = (s.readers other).announced := by
    intro other
    by_cases hother : other = reader
    · subst hother
      rw [goto_self]
      exact ⟨howns, hannounced⟩
    · rw [goto_other hother]
      exact ⟨rfl, rfl⟩
  constructor
  case owned =>
    intro other chunkId flight hother
    rw [(hsame other).1] at hother
    rw [(hsame other).2]
    exact h.owned hother
  case registered =>
    intro chunkId flight hflight
    obtain ⟨other, hother⟩ := h.registered hflight
    exact ⟨other, (hsame other).1.trans hother⟩
  case pending =>
    intro flight found hfound hpending
    exact (hsame _).1.trans (h.pending hfound hpending)
  case awaited =>
    intro other chunkId flight hother
    by_cases heq : other = reader
    · subst heq
      rw [goto_self] at hother
      exact hawaits chunkId flight hother
    · rw [goto_other heq] at hother
      exact h.awaited hother
  case asleep =>
    intro other chunkId flight hother
    by_cases heq : other = reader
    · subst heq
      rw [goto_self] at hother
      exact hasleep chunkId flight hother
    · rw [goto_other heq] at hother
      exact h.asleep hother
  case cached => exact h.cached
  case decoded =>
    intro other outcome hother
    by_cases heq : other = reader
    · subst heq
      rw [goto_self] at hother
      exact houtcome outcome hother
    · rw [goto_other heq] at hother
      exact h.decoded hother
  case returned =>
    intro other chunkId decoded hother
    by_cases heq : other = reader
    · subst heq
      rw [goto_self] at hother
      exact hreturned chunkId decoded hother
    · rw [goto_other heq] at hother
      exact h.returned hother

theorem Flights.Coherent.recache (h : s.Coherent) (cache : lru.Cache Nat Bytes)
    (hcache : ∀ entry ∈ lru.entries cache, (entry.1, .ok entry.2) ∈ s.outcomes) :
    Coherent { s with chunkCache := cache } :=
  { h with cached := fun hentry => hcache _ hentry }

theorem Flights.Coherent.log (h : s.Coherent) (outcome : Nat × Result Bytes) :
    Coherent { s with outcomes := outcome :: s.outcomes } :=
  { h with
    cached := fun hentry => List.mem_cons_of_mem _ (h.cached hentry)
    decoded := fun hother => List.mem_cons_of_mem _ (h.decoded hother)
    returned := fun hother => (h.returned hother).imp_left (List.mem_cons_of_mem _) }

theorem Flights.Coherent.register (h : s.Coherent) (hphase : s.readers reader = .register chunkId)
    (hflight : s.chunkInFlight chunkId = none) : (s.registered reader chunkId).Coherent := by
  have hold : ∀ {flight : Nat} {found}, s.flights[flight]? = some found →
      (s.registered reader chunkId).flights[flight]? = some found := by
    intro flight found hfound
    have hlt : flight < s.flights.length := (List.getElem?_eq_some_iff.mp hfound).1
    exact (List.getElem?_append_left hlt).trans hfound
  have hother : ∀ {other}, other ≠ reader →
      (s.registered reader chunkId).readers other = s.readers other := goto_other
  have hself : (s.registered reader chunkId).readers reader = .decode chunkId s.flights.length :=
    goto_self
  have hnotOwner : ∀ {other pair}, (s.readers other).owns = some pair → other ≠ reader := by
    rintro other pair howns rfl
    rw [hphase] at howns
    cases howns
  constructor
  case owned =>
    intro other chunkId' flight howns
    by_cases heq : other = reader
    · subst heq
      rw [hself] at howns ⊢
      cases howns
      exact ⟨Function.update_self .., List.getElem?_concat_length⟩
    · rw [hother heq] at howns ⊢
      obtain ⟨hregistered, hfound⟩ := h.owned howns
      have hne : chunkId' ≠ chunkId := by
        rintro rfl
        rw [hflight] at hregistered
        cases hregistered
      exact ⟨(Function.update_of_ne hne ..).trans hregistered, hold hfound⟩
  case registered =>
    intro chunkId' flight hregistered
    by_cases heq : chunkId' = chunkId
    · subst heq
      have hnew : Function.update s.chunkInFlight chunkId' (some s.flights.length) chunkId' =
          some flight := hregistered
      rw [Function.update_self] at hnew
      cases hnew
      exact ⟨reader, by rw [hself]; rfl⟩
    · have hregistered' : s.chunkInFlight chunkId' = some flight :=
        (Function.update_of_ne heq ..).symm.trans hregistered
      obtain ⟨other, howns⟩ := h.registered hregistered'
      exact ⟨other, by rw [hother (hnotOwner howns), howns]⟩
  case pending =>
    intro flight found hfound hpending
    by_cases hlt : flight < s.flights.length
    · have howns := h.pending ((List.getElem?_append_left hlt).symm.trans hfound) hpending
      rw [hother (hnotOwner howns), howns]
    · have hlast : flight = s.flights.length ∧ found = ⟨reader, chunkId, false⟩ := by
        have hlength := (List.getElem?_eq_some_iff.mp hfound).1
        have hsize : (s.registered reader chunkId).flights.length = s.flights.length + 1 :=
          List.length_append
        obtain rfl : flight = s.flights.length := by omega
        exact ⟨rfl, (Option.some.inj (List.getElem?_concat_length.symm.trans hfound)).symm⟩
      obtain ⟨rfl, rfl⟩ := hlast
      rw [hself]
      rfl
  case awaited =>
    intro other chunkId' flight hawaits
    by_cases heq : other = reader
    · subst heq
      rw [hself] at hawaits
      cases hawaits
    · rw [hother heq] at hawaits
      obtain ⟨found, hfound, hchunk⟩ := h.awaited hawaits
      exact ⟨found, hold hfound, hchunk⟩
  case asleep =>
    intro other chunkId' flight hasleep
    by_cases heq : other = reader
    · subst heq
      rw [hself] at hasleep
      cases hasleep
    · rw [hother heq] at hasleep
      obtain ⟨found, hfound, hcomplete⟩ := h.asleep hasleep
      exact ⟨found, hold hfound, hcomplete⟩
  case cached => exact h.cached
  case decoded =>
    intro other outcome houtcome
    by_cases heq : other = reader
    · subst heq
      rw [hself] at houtcome
      cases houtcome
    · rw [hother heq] at houtcome
      exact h.decoded houtcome
  case returned =>
    intro other chunkId' decoded hreturned
    by_cases heq : other = reader
    · subst heq
      rw [hself] at hreturned
      cases hreturned
    · rw [hother heq] at hreturned
      exact h.returned hreturned

/-- The owner is the only one that has registered a flight. -/
theorem Flights.Coherent.owner_eq (h : s.Coherent) {pair : Nat × Nat}
    (hreader : (s.readers reader).owns = some pair) (hother : (s.readers other).owns = some pair) :
    other = reader := by
  obtain ⟨-, hfound⟩ := h.owned hreader
  obtain ⟨-, hfound'⟩ := h.owned hother
  rw [hfound] at hfound'
  cases hfound'
  rfl

theorem getElem?_complete (flight' : Nat) :
    (s.complete flight).flights[flight']? =
      if flight = flight' then
        (s.flights[flight']?).map fun found => { found with complete := true }
      else s.flights[flight']? := by
  refine (List.getElem?_modify ..).trans ?_
  split <;> simp

theorem Flights.Coherent.finish (h : s.Coherent) {decoded : Result Bytes}
    (hphase : s.readers reader = .finish chunkId flight decoded) :
    ((s.complete flight).goto reader (.remove chunkId flight decoded)).Coherent := by
  have howned : (s.readers reader).owns = some (chunkId, flight) := by rw [hphase]; rfl
  obtain ⟨hregistered, hfound⟩ := h.owned howned
  have hflight : ∀ {flight' : Nat} {found}, flight' ≠ flight →
      (s.flights[flight']? = some found ↔ (s.complete flight).flights[flight']? = some found) := by
    intro flight' found hne
    rw [getElem?_complete, if_neg hne.symm]
  have hother : ∀ {other}, other ≠ reader →
      ((s.complete flight).goto reader (.remove chunkId flight decoded)).readers other =
        (s.readers other).notified flight := goto_other
  constructor
  case owned =>
    intro other chunkId' flight' howns
    by_cases heq : other = reader
    · subst heq
      rw [goto_self] at howns ⊢
      cases howns
      refine ⟨hregistered, ?_⟩
      refine (getElem?_complete flight).trans ?_
      rw [if_pos rfl, hfound]
      rfl
    · rw [hother heq, Phase.owns_notified] at howns
      rw [hother heq, Phase.announced_notified]
      obtain ⟨hregistered', hfound'⟩ := h.owned howns
      have hne : flight' ≠ flight := by
        rintro rfl
        rw [hfound] at hfound'
        exact heq (ChunkFlight.mk.inj (Option.some.inj hfound')).1.symm
      exact ⟨hregistered', (hflight hne).mp hfound'⟩
  case registered =>
    intro chunkId' flight' hregistered'
    obtain ⟨other, howns⟩ := h.registered hregistered'
    refine ⟨other, ?_⟩
    by_cases heq : other = reader
    · subst heq
      rw [goto_self]
      exact howned.symm.trans howns
    · rw [hother heq, Phase.owns_notified, howns]
  case pending =>
    intro flight' found hfound' hpending
    by_cases hne : flight' = flight
    · subst hne
      have hcomplete := (getElem?_complete flight').symm.trans hfound'
      rw [if_pos rfl, hfound] at hcomplete
      cases hcomplete
      cases hpending
    · have howns := h.pending ((hflight hne).mpr hfound') hpending
      have heq : found.owner ≠ reader := by
        intro heq
        rw [heq, howned] at howns
        exact hne (Prod.mk.inj (Option.some.inj howns)).2.symm
      rw [hother heq, Phase.owns_notified, howns]
  case awaited =>
    intro other chunkId' flight' hawaits
    by_cases heq : other = reader
    · subst heq
      rw [goto_self] at hawaits
      cases hawaits
    · rw [hother heq, Phase.awaits_notified] at hawaits
      obtain ⟨found, hfound', hchunk⟩ := h.awaited hawaits
      by_cases hne : flight' = flight
      · subst hne
        refine ⟨{ found with complete := true }, ?_, hchunk⟩
        refine (getElem?_complete flight').trans ?_
        rw [if_pos rfl, hfound']
        rfl
      · exact ⟨found, (hflight hne).mp hfound', hchunk⟩
  case asleep =>
    intro other chunkId' flight' hasleep
    by_cases heq : other = reader
    · subst heq
      rw [goto_self] at hasleep
      cases hasleep
    · rw [hother heq] at hasleep
      obtain ⟨hbefore, hne⟩ := Phase.asleep_of_notified hasleep
      obtain ⟨found, hfound', hcomplete⟩ := h.asleep hbefore
      exact ⟨found, (hflight hne).mp hfound', hcomplete⟩
  case cached => exact h.cached
  case decoded =>
    intro other outcome houtcome
    by_cases heq : other = reader
    · subst heq
      rw [goto_self] at houtcome
      have hbefore : (s.readers other).outcome = some outcome := by rw [hphase]; exact houtcome
      exact h.decoded hbefore
    · rw [hother heq, Phase.outcome_notified] at houtcome
      exact h.decoded houtcome
  case returned =>
    intro other chunkId' decoded' hreturned
    by_cases heq : other = reader
    · subst heq
      rw [goto_self] at hreturned
      cases hreturned
    · rw [hother heq] at hreturned
      exact h.returned (Phase.returned_of_notified hreturned)

theorem Flights.Coherent.remove (h : s.Coherent) {decoded : Result Bytes}
    (hphase : s.readers reader = .remove chunkId flight decoded) :
    Coherent ({ s with chunkInFlight := Function.update s.chunkInFlight chunkId none }.goto reader
      (.returned chunkId decoded)) := by
  have howned : (s.readers reader).owns = some (chunkId, flight) := by rw [hphase]; rfl
  obtain ⟨hregistered, hfound⟩ := h.owned howned
  constructor
  case owned =>
    intro other chunkId' flight' howns
    by_cases heq : other = reader
    · subst heq
      rw [goto_self] at howns
      cases howns
    · rw [goto_other heq] at howns ⊢
      obtain ⟨hregistered', hfound'⟩ := h.owned howns
      have hne : chunkId' ≠ chunkId := by
        rintro rfl
        rw [hregistered] at hregistered'
        cases hregistered'
        exact heq (h.owner_eq howned howns)
      exact ⟨(Function.update_of_ne hne ..).trans hregistered', hfound'⟩
  case registered =>
    intro chunkId' flight' hregistered'
    have hne : chunkId' ≠ chunkId := by
      rintro rfl
      have hnone : Function.update s.chunkInFlight chunkId' none chunkId' = some flight' :=
        hregistered'
      rw [Function.update_self] at hnone
      cases hnone
    obtain ⟨other, howns⟩ := h.registered ((Function.update_of_ne hne ..).symm.trans hregistered')
    have heq : other ≠ reader := by
      rintro rfl
      rw [howned] at howns
      exact hne (Prod.mk.inj (Option.some.inj howns)).1.symm
    exact ⟨other, by rw [goto_other heq]; exact howns⟩
  case pending =>
    intro flight' found hfound' hpending
    have howns := h.pending hfound' hpending
    have heq : found.owner ≠ reader := by
      intro heq
      rw [heq, howned] at howns
      cases howns
      have hmarked := Option.some.inj (hfound'.symm.trans hfound)
      rw [hmarked, hphase] at hpending
      cases hpending
    rw [goto_other heq]
    exact howns
  case awaited =>
    intro other chunkId' flight' hawaits
    by_cases heq : other = reader
    · subst heq
      rw [goto_self] at hawaits
      cases hawaits
    · rw [goto_other heq] at hawaits
      exact h.awaited hawaits
  case asleep =>
    intro other chunkId' flight' hasleep
    by_cases heq : other = reader
    · subst heq
      rw [goto_self] at hasleep
      cases hasleep
    · rw [goto_other heq] at hasleep
      exact h.asleep hasleep
  case cached => exact h.cached
  case decoded =>
    intro other outcome houtcome
    by_cases heq : other = reader
    · subst heq
      rw [goto_self] at houtcome
      cases houtcome
    · rw [goto_other heq] at houtcome
      exact h.decoded houtcome
  case returned =>
    intro other chunkId' decoded' hreturned
    by_cases heq : other = reader
    · subst heq
      rw [goto_self] at hreturned
      cases hreturned
      have hbefore : (s.readers other).outcome = some (chunkId, decoded) := by rw [hphase]; rfl
      exact .inl (h.decoded hbefore)
    · rw [goto_other heq] at hreturned
      exact h.returned hreturned

theorem Flights.Coherent.step {label : FlightLabel} (h : s.Coherent)
    (hstep : FlightStep s label s') : s'.Coherent := by
  cases hstep with
  | call hphase chunkId =>
    exact h.goto (by rw [hphase]; rfl) (by rw [hphase]; rfl) nofun nofun nofun nofun
  | refuse hphase chunkId =>
    refine h.goto (by rw [hphase]; rfl) (by rw [hphase]; rfl) nofun nofun nofun ?_
    intro _ _ heq
    cases heq
    exact .inr rfl
  | @hit _ chunkId _ hphase hcache =>
    have hcached := h.cached (Interface.mem_of_get hcache)
    have hrest := h.recache (lru.get s.chunkCache chunkId).2 fun _ hentry =>
      h.cached (Interface.mem_entries_get hentry)
    refine hrest.goto (by rw [hphase]; rfl) (by rw [hphase]; rfl) nofun nofun nofun ?_
    intro _ _ heq
    cases heq
    exact .inl hcached
  | miss hphase hcache =>
    exact h.goto (by rw [hphase]; rfl) (by rw [hphase]; rfl) nofun nofun nofun nofun
  | join hphase hflight =>
    refine h.goto (by rw [hphase]; rfl) (by rw [hphase]; rfl) ?_ nofun nofun nofun
    intro _ _ heq
    cases heq
    obtain ⟨owner, howns⟩ := h.registered hflight
    exact ⟨_, (h.owned howns).2, rfl⟩
  | register hphase hflight => exact h.register hphase hflight
  | sleep hphase hflight hcomplete =>
    refine h.goto (by rw [hphase]; rfl) (by rw [hphase]; rfl) ?_ ?_ nofun nofun
    · intro _ _ heq
      cases heq
      exact h.awaited (by rw [hphase]; rfl)
    · intro _ _ heq
      cases heq
      exact ⟨_, hflight, hcomplete⟩
  | again hphase hflight hcomplete =>
    exact h.goto (by rw [hphase]; rfl) (by rw [hphase]; rfl) nofun nofun nofun nofun
  | wake hphase =>
    refine h.goto (by rw [hphase]; rfl) (by rw [hphase]; rfl) ?_ nofun nofun nofun
    intro _ _ heq
    cases heq
    exact h.awaited (by rw [hphase]; rfl)
  | decoded hphase decoded =>
    refine (h.log _).goto (by rw [hphase]; rfl) (by rw [hphase]; rfl) nofun nofun ?_ nofun
    intro _ heq
    cases heq
    exact List.mem_cons_self
  | failed hphase e =>
    refine (h.log _).goto (by rw [hphase]; rfl) (by rw [hphase]; rfl) nofun nofun ?_ nofun
    intro _ heq
    cases heq
    exact List.mem_cons_self
  | store hphase =>
    have houtcome := h.decoded (by rw [hphase]; rfl)
    have hrest := h.recache (lru.put s.chunkCache _ _) fun entry hentry =>
      (Interface.mem_entries_put hentry).elim (fun heq => heq ▸ houtcome) h.cached
    refine hrest.goto (by rw [hphase]; rfl) (by rw [hphase]; rfl) nofun nofun ?_ nofun
    intro _ heq
    cases heq
    exact houtcome
  | finish hphase => exact h.finish hphase
  | remove hphase => exact h.remove hphase
  | leave hphase =>
    exact h.goto (by rw [hphase]; rfl) (by rw [hphase]; rfl) nofun nofun nofun nofun
  | evict hentries => exact h.recache _ fun _ hentry => h.cached (hentries _ hentry)

theorem Flights.coherent_of_run {capacity : Nat} {labels : List FlightLabel}
    (h : Run FlightStep (initial lru capacity) labels s) : s.Coherent :=
  h.invariant (fun _ _ _ hs hstep => hs.step hstep) (coherent_initial capacity)

/-! ## Owners -/

/-- The flight is marked as complete. -/
def Flights.Marked (s : Flights lru) (flight : Nat) : Prop :=
  ∃ found, s.flights[flight]? = some found ∧ found.complete = true

/-- A reader with a registered flight has something to do next. -/
theorem exists_step_of_owns (howns : (s.readers reader).owns = some (chunkId, flight)) :
    ∃ s', FlightStep s (.reader reader) s' := by
  cases hphase : s.readers reader with
  | decode chunkId flight => exact ⟨_, .failed hphase .aborted⟩
  | store chunkId flight decoded => exact ⟨_, .store hphase⟩
  | finish chunkId flight decoded => exact ⟨_, .finish hphase⟩
  | remove chunkId flight decoded => exact ⟨_, .remove hphase⟩
  | _ =>
    rw [hphase] at howns
    cases howns

/-- The steps of an owner behind its decode: it marks its flight, and then removes it. -/
def Flights.Concludes (s : Flights lru) (owner chunkId flight : Nat)
    (decoded : Result Bytes) : Prop :=
  ∃ marked removed, ∃ labels : List FlightLabel,
    (∀ label ∈ labels, label = .reader owner) ∧ Run FlightStep s labels marked ∧
    marked.Marked flight ∧ marked.chunkInFlight chunkId = some flight ∧
    FlightStep marked (.reader owner) removed ∧ removed.chunkInFlight chunkId = none ∧
    removed.readers owner = .returned chunkId decoded

theorem Flights.Coherent.concludes_of_remove (h : s.Coherent) {decoded : Result Bytes}
    (hphase : s.readers reader = .remove chunkId flight decoded) :
    s.Concludes reader chunkId flight decoded := by
  have howns : (s.readers reader).owns = some (chunkId, flight) := by rw [hphase]; rfl
  obtain ⟨hregistered, hfound⟩ := h.owned howns
  refine ⟨s, _, [], nofun, .nil s, ⟨_, hfound, ?_⟩, hregistered, .remove hphase, ?_, goto_self⟩
  · rw [hphase]
    rfl
  · exact Function.update_self ..

theorem Flights.Concludes.of_step {decoded : Result Bytes}
    (hstep : FlightStep s (.reader reader) s') (h : s'.Concludes reader chunkId flight decoded) :
    s.Concludes reader chunkId flight decoded := by
  obtain ⟨marked, removed, labels, hlabels, hrun, hrest⟩ := h
  refine ⟨marked, removed, .reader reader :: labels, ?_, .cons hstep hrun, hrest⟩
  intro label hlabel
  rcases List.mem_cons.mp hlabel with rfl | hlabel
  · rfl
  · exact hlabels label hlabel

theorem Flights.Coherent.concludes_of_finish (h : s.Coherent) {decoded : Result Bytes}
    (hphase : s.readers reader = .finish chunkId flight decoded) :
    s.Concludes reader chunkId flight decoded :=
  .of_step (.finish hphase) ((h.finish hphase).concludes_of_remove goto_self)

theorem Flights.Coherent.concludes (h : s.Coherent) {decoded : Result Bytes}
    (howns : (s.readers reader).owns = some (chunkId, flight))
    (houtcome : (s.readers reader).outcome = some (chunkId, decoded)) :
    s.Concludes reader chunkId flight decoded := by
  cases hphase : s.readers reader with
  | store _ _ bytes =>
    rw [hphase] at howns houtcome
    cases howns
    cases houtcome
    have hstep := FlightStep.store hphase
    exact .of_step hstep ((h.step hstep).concludes_of_finish goto_self)
  | finish _ _ _ =>
    rw [hphase] at howns houtcome
    cases howns
    cases houtcome
    exact h.concludes_of_finish hphase
  | remove _ _ _ =>
    rw [hphase] at howns houtcome
    cases howns
    cases houtcome
    exact h.concludes_of_remove hphase
  | _ =>
    rw [hphase] at houtcome
    cases houtcome

/-- Nobody but its owner takes a flight out of the table, and only when it is marked. -/
theorem Flights.Coherent.removed_by_owner (h : s.Coherent) {label : FlightLabel}
    (hstep : FlightStep s label s') (hflight : s.chunkInFlight chunkId = some flight)
    (hgone : s'.chunkInFlight chunkId ≠ some flight) :
    s.Marked flight ∧ ∃ owner, label = .reader owner ∧
      (s.readers owner).owns = some (chunkId, flight) := by
  cases hstep with
  | @register reader chunkId' hphase hnone =>
    have hne : chunkId ≠ chunkId' := by
      rintro rfl
      rw [hflight] at hnone
      cases hnone
    exact absurd ((Function.update_of_ne hne ..).trans hflight) hgone
  | @remove reader chunkId' flight' decoded hphase =>
    by_cases heq : chunkId = chunkId'
    · subst heq
      have howns : (s.readers reader).owns = some (chunkId, flight') := by rw [hphase]; rfl
      obtain ⟨hregistered, hfound⟩ := h.owned howns
      rw [hflight] at hregistered
      cases hregistered
      refine ⟨⟨_, hfound, ?_⟩, reader, rfl, howns⟩
      rw [hphase]
      rfl
    · exact absurd ((Function.update_of_ne heq ..).trans hflight) hgone
  | _ => exact absurd hflight hgone

/-- A reader that waits can look again, or the owner of the flight has something to do before
it marks the flight. -/
theorem Flights.Coherent.awaits (h : s.Coherent)
    (hawaits : (s.readers reader).awaits = some (chunkId, flight)) :
    (s.readers reader = .await chunkId flight ∧ s.Marked flight) ∨
      ∃ owner, (s.readers owner).owns = some (chunkId, flight) ∧
        (s.readers owner).announced = false ∧ ∃ s', FlightStep s (.reader owner) s' := by
  obtain ⟨found, hfound, hchunk⟩ := h.awaited hawaits
  by_cases hcomplete : found.complete = true
  · left
    refine ⟨?_, found, hfound, hcomplete⟩
    cases hphase : s.readers reader with
    | await _ _ =>
      rw [hphase] at hawaits
      cases hawaits
      rfl
    | asleep _ _ =>
      rw [hphase] at hawaits
      cases hawaits
      obtain ⟨found', hfound', hcomplete'⟩ := h.asleep hphase
      rw [hfound] at hfound'
      cases hfound'
      rw [hcomplete] at hcomplete'
      cases hcomplete'
    | _ =>
      rw [hphase] at hawaits
      cases hawaits
  · right
    have howns := h.pending hfound (Bool.not_eq_true _ ▸ hcomplete)
    rw [hchunk] at howns
    obtain ⟨-, hmark⟩ := h.owned howns
    rw [hfound] at hmark
    refine ⟨found.owner, howns, ?_, exists_step_of_owns howns⟩
    rw [Option.some.inj hmark] at hcomplete
    exact Bool.not_eq_true _ ▸ hcomplete

end Coherent

/-- Any number of readers of any chunks, in any order of their steps: two readers never decode one
chunk at a time; a registered flight has an owner; when its owner has an outcome it can publish,
mark and remove it; nobody else removes it, nor before it is marked; who waits for it can look
again, or its owner has a step to make; and what a reader returns is an outcome of decoding. -/
theorem readChunk_flights {capacity : Nat} {labels : List FlightLabel} {s : Flights lru}
    (h : Run FlightStep (Flights.initial lru capacity) labels s) :
    (∀ reader other chunkId flight flight', s.readers reader = .decode chunkId flight →
      s.readers other = .decode chunkId flight' → other = reader) ∧
    (∀ chunkId flight, s.chunkInFlight chunkId = some flight →
      ∃ owner, (s.readers owner).owns = some (chunkId, flight)) ∧
    (∀ owner chunkId flight decoded, (s.readers owner).owns = some (chunkId, flight) →
      (s.readers owner).outcome = some (chunkId, decoded) →
      s.chunkInFlight chunkId = some flight ∧ s.Concludes owner chunkId flight decoded) ∧
    (∀ label s' chunkId flight, FlightStep s label s' → s.chunkInFlight chunkId = some flight →
      s'.chunkInFlight chunkId ≠ some flight → s.Marked flight ∧
        ∃ owner, label = .reader owner ∧ (s.readers owner).owns = some (chunkId, flight)) ∧
    (∀ reader chunkId flight, (s.readers reader).awaits = some (chunkId, flight) →
      (s.readers reader = .await chunkId flight ∧ s.Marked flight) ∨
        ∃ owner, (s.readers owner).owns = some (chunkId, flight) ∧
          (s.readers owner).announced = false ∧ ∃ s', FlightStep s (.reader owner) s') ∧
    ∀ reader chunkId decoded, s.readers reader = .returned chunkId decoded →
      (chunkId, decoded) ∈ s.outcomes ∨ decoded = .error .aborted := by
  have hcoherent := Flights.coherent_of_run h
  refine ⟨?_, fun _ _ => hcoherent.registered, ?_, ?_, fun _ _ _ => hcoherent.awaits,
    fun _ _ _ => hcoherent.returned⟩
  · intro reader other chunkId flight flight' hreader hother
    have howns : (s.readers reader).owns = some (chunkId, flight) := by rw [hreader]; rfl
    have howns' : (s.readers other).owns = some (chunkId, flight') := by rw [hother]; rfl
    have hsame := (hcoherent.owned howns).1.symm.trans (hcoherent.owned howns').1
    cases hsame
    exact hcoherent.owner_eq howns howns'
  · intro owner chunkId flight decoded howns houtcome
    exact ⟨(hcoherent.owned howns).1, hcoherent.concludes howns houtcome⟩
  · intro label s' chunkId flight hstep
    exact hcoherent.removed_by_owner hstep

/-- One reader decodes the first chunk, another one is asleep until its flight is complete. -/
def oneAsleep : Flights byRecency :=
  (((((((Flights.initial byRecency 1).goto 0 (.lookup 0)).goto 0 (.register 0)).registered 0
    0).goto 1 (.lookup 0)).goto 1 (.register 0)).goto 1 (.await 0 0)).goto 1 (.asleep 0 0)

theorem run_oneAsleep : Run FlightStep (Flights.initial byRecency 1)
    [.reader 0, .reader 0, .reader 0, .reader 1, .reader 1, .reader 1, .reader 1] oneAsleep :=
  .cons (.call rfl 0) <| .cons (.miss rfl rfl) <| .cons (.register rfl rfl) <|
    .cons (.call rfl 0) <| .cons (.miss rfl rfl) <| .cons (.join rfl rfl) <|
      .cons (.sleep rfl rfl rfl) <| .nil _

theorem readChunk_flights_oneAsleep : ∃ owner,
    (oneAsleep.readers owner).owns = some (0, 0) ∧ (oneAsleep.readers owner).announced = false ∧
      ∃ s', FlightStep oneAsleep (.reader owner) s' := by
  obtain ⟨-, -, -, -, hawaits, -⟩ := readChunk_flights run_oneAsleep
  rcases hawaits 1 0 0 rfl with ⟨hawait, -⟩ | howner
  · cases hawait
  · exact howner

end EwfImage.Reading
