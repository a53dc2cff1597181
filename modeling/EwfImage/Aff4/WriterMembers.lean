import EwfImage.Aff4.WriterSession
import EwfImage.Lib.Collecting
import EwfImage.Lib.Pieces

/-!
# The members of an addition

An image or a file that is added without an error leaves whole members: those that its bytes
have. What fails on its way leaves a poisoned writer.

The members are stated from the bytes that the input gives: the chunks, their index, or the one
stored segment. The lemmas follow the loops of the source, with what has been written so far as
the invariant.
-/

namespace EwfImage.Aff4.Writing

open Fallible Pieces Triples Word

/-! ## Whole additions -/

section Denotation

variable (libraries : WriterLibraries) (options : WriteOptions)

/-- The data of a bevy with these chunks, and what is collected next to it. -/
def bevyContents (chunks : List Bytes) : Result (Bytes × Bevy) := do
  let prepared ← chunks.mapM (prepareChunk libraries options)
  return (prepared.flatMap (·.storedBytes options), prepared.foldl (·.push options) {})

/-- The members that a bevy with this name and these contents has. -/
def bevyFiles (name : String) (data : Bytes) (bevy : Bevy) : List Member :=
  [⟨name, data, false⟩, ⟨name ++ ".index", bevy.index, false⟩,
    ⟨name ++ ".blockHash.md5", bevy.md5Blocks, false⟩,
    ⟨name ++ ".blockHash.sha256", bevy.sha256Blocks, false⟩]

/-- The members of a bevy, from its chunks and its number. -/
def bevyMembers (storage : String) (entry : List Bytes × Nat) : Result (List Member) := do
  let (data, bevy) ← bevyContents libraries options entry.1
  return bevyFiles s!"{storage}/{eightDigits entry.2}" data bevy

/-- Where an addition is stored. -/
inductive Placement
  | segment (storage : String)
  | file (storage : String)
  | image (storage mapStorage stream : String)

inductive Kind
  | segment
  | file
  | image
  deriving DecidableEq

def Placement.kind : Placement → Kind
  | .segment _ => .segment
  | .file _ => .file
  | .image _ _ _ => .image

/-- The number of members that an addition has. -/
def Kind.entries (size : Nat) : Kind → Nat
  | .segment => 1
  | .file => 4 * divCeil (divCeil size options.chunkBytes) options.chunksPerBevy
  | .image => 4 * divCeil (divCeil size options.chunkBytes) options.chunksPerBevy + 2

/-- An image or a file with all of its bytes. -/
structure Addition where
  id : String
  bytes : Bytes
  placement : Placement

namespace Addition

variable (addition : Addition)

def chunkedMembers (storage : String) : Result (List Member) := do
  let bevies := pieces options.chunksPerBevy (pieces options.chunkBytes addition.bytes)
  let members ← bevies.zipIdx.mapM (bevyMembers libraries options storage)
  return members.flatten

/-- The members that an addition has. -/
def members : Result (List Member) :=
  match addition.placement with
  | .segment storage => .ok [⟨storage, addition.bytes, options.compression ≠ .stored⟩]
  | .file storage => addition.chunkedMembers libraries options storage
  | .image storage mapStorage stream => do
    let members ← addition.chunkedMembers libraries options storage
    return members ++ [⟨mapStorage ++ "/map", mapPoints addition.bytes.length, false⟩,
      ⟨mapStorage ++ "/idx", utf8Bytes s!"{stream}\n", false⟩]

/-- What is recorded of an addition. -/
def stream : AcquiredStream :=
  finishHashes libraries addition.bytes addition.id addition.bytes.length

end Addition

end Denotation

/-! ## Steps of a writer -/

section Steps

variable {σ α β : Type} {E : Writer → Prop} {w : Writer} {x : Write σ α} {Q : α → Writer → Prop}
  {R : β → Writer → Prop}

/-- Started on the writer `w`, the computation returns with `Q` or leaves a writer with `E`. -/
def Steps (E : Writer → Prop) (w : Writer) (x : Write σ α) (Q : α → Writer → Prop) : Prop :=
  Triple (fun s => s.writer = w) x (fun a s => Q a s.writer) fun _ s => E s.writer

/-- What fails leaves a poisoned writer. -/
abbrev Writes (w : Writer) (x : Write σ α) (Q : α → Writer → Prop) : Prop :=
  Steps (fun w' => w'.poisoned = true) w x Q

theorem Steps.bind {f : α → Write σ β} (hx : Steps E w x Q)
    (hf : ∀ a w', Q a w' → Steps E w' (f a) R) : Steps E w (x >>= f) R :=
  Triple.bind hx fun a s hs => hf a s.writer hs s rfl

theorem Steps.imp {Q' : α → Writer → Prop} (hx : Steps E w x Q)
    (himp : ∀ a w', Q a w' → Q' a w') : Steps E w x Q' :=
  Triple.imp hx fun a s hs => himp a s.writer hs

theorem Steps.weaken {E' : Writer → Prop} (hx : Steps E w x Q) (himp : ∀ w', E w' → E' w') :
    Steps E' w x Q :=
  Triple.weaken hx (fun _ hs => hs) (fun _ _ hs => hs) fun _ s hs => himp s.writer hs

theorem steps_pure {a : α} (h : Q a w) : Steps E w (pure a : Write σ α) Q :=
  triple_pure fun _ hs => hs ▸ h

theorem steps_throw {e : WriteError} (h : E w) : Steps E w (throw e : Write σ α) Q :=
  triple_throw fun _ hs => hs ▸ h

/-- Nothing follows an error. -/
theorem steps_throw_bind {e : WriteError} {f : β → Write σ α} (h : E w) :
    Steps E w ((throw e : Write σ β) >>= f) Q :=
  Steps.bind (Q := fun _ _ => False) (steps_throw h) fun _ _ hfalse => hfalse.elim

theorem steps_writer : Steps E w (writer : Write σ Writer) fun a w' => a = w ∧ w' = w :=
  fun _ hs => ⟨hs, hs⟩

/-- Looking at the writer leaves it as it is. -/
theorem steps_writer_bind {f : Writer → Write σ β} (h : Steps E w (f w) R) :
    Steps E w (writer >>= f) R := by
  refine Steps.bind steps_writer fun a w' ⟨ha, hw'⟩ => ?_
  rw [ha, hw']
  exact h

theorem steps_modify {change : Writer → Writer} {Q : Unit → Writer → Prop} (h : Q () (change w)) :
    Steps E w (modifyWriter change : Write σ Unit) Q :=
  triple_modify fun s hs => by
    rw [← hs] at h
    exact h

theorem steps_changed {change : Writer → Writer} :
    Steps E w (modifyWriter change : Write σ Unit) fun _ w' => w' = change w :=
  steps_modify rfl

theorem steps_ask {operation : σ → α × σ} (h : ∀ a, Q a w) : Steps E w (ask operation) Q := by
  intro s hs
  exact (congrArg (Q (operation s.world).1) hs.symm).mp (h (operation s.world).1)

theorem steps_ofResult {r : Result α} (hw : E w) (h : ∀ a, r = .ok a → Q a w) :
    Steps E w (ofResult r : Write σ α) Q := by
  cases r with
  | ok a => exact steps_pure (h a rfl)
  | error e => exact steps_throw hw

theorem steps_ofWriteResult {r : Except WriteError α} (hw : E w) (h : ∀ a, r = .ok a → Q a w) :
    Steps E w (ofWriteResult r : Write σ α) Q := by
  cases r with
  | ok a => exact steps_pure (h a rfl)
  | error e => exact steps_throw hw

theorem steps_ofFailure {failure : Option Error} {Q : Unit → Writer → Prop} (hw : E w)
    (h : Q () w) : Steps E w (ofFailure failure : Write σ Unit) Q := by
  cases failure with
  | none => exact steps_pure h
  | some e => exact steps_throw hw

theorem steps_ite {c : Prop} [Decidable c] {y : Write σ α} (hx : c → Steps E w x Q)
    (hy : ¬ c → Steps E w y Q) : Steps E w (if c then x else y) Q :=
  triple_ite hx hy

/-- An error that a condition stands for. -/
theorem steps_refuse {c : Prop} [Decidable c] {e : WriteError} {Q : Unit → Writer → Prop}
    (hw : E w) (h : ¬ c → Q () w) :
    Steps E w (if c then throw e else pure () : Write σ Unit) Q :=
  steps_ite (fun _ => steps_throw hw) fun hc => steps_pure (h hc)

theorem steps_notify {progress : Nat → Nat → σ → Bool × σ} {done size : Nat} (hw : E w) :
    Steps E w (notify progress done size) fun _ w' => w' = w := by
  refine Steps.bind (Q := fun _ w' => w' = w) (steps_ask fun _ => rfl) fun stopped w' hw' => ?_
  subst hw'
  exact steps_ite (fun _ => steps_throw hw) fun _ => steps_pure rfl

theorem steps_readExact {source : Source σ} {size : Nat} (hw : E w) :
    Steps E w (readExact source size) fun _ w' => w' = w := by
  refine Steps.bind (Q := fun _ w' => w' = w) (steps_ask fun _ => rfl) fun answer w' hw' => ?_
  subst hw'
  exact steps_ofResult hw fun _ _ => rfl

end Steps

/-! ## Members -/

/-- The writer with more members. -/
def Writer.withMembers (w : Writer) (members : List Member) : Writer :=
  { w with members := w.members ++ members }

section Members

variable {σ : Type} {w : Writer} {env : Environment σ} {members : List Member} {m : Member}

@[simp] theorem poisoned_withMembers : (w.withMembers members).poisoned = w.poisoned := rfl

@[simp] theorem withMembers_nil : w.withMembers [] = w := by
  simp [Writer.withMembers]

@[simp] theorem withMembers_withMembers (members' : List Member) :
    (w.withMembers members).withMembers members' = w.withMembers (members ++ members') := by
  simp [Writer.withMembers]

theorem extend_withMembers (data : Bytes) :
    (w.withMembers (members ++ [m])).extend data =
      w.withMembers (members ++ [{ m with data := m.data ++ data }]) := by
  simp [Writer.extend, Writer.withMembers, ← List.append_assoc]

@[simp] theorem poisoned_extend (data : Bytes) : (w.extend data).poisoned = w.poisoned := by
  unfold Writer.extend
  split <;> rfl

theorem steps_startFile {E : Writer → Prop} (hE : E w) (name : String) (deflated : Bool) :
    Steps E w (startFile env name deflated) fun _ w' => w' = w.withMembers [⟨name, [], deflated⟩] := by
  refine Steps.bind (Q := fun _ w' => w' = w) (steps_ask fun _ => rfl) fun failure w' hw' => ?_
  subst hw'
  refine Steps.bind (Q := fun _ w'' => w'' = w') (steps_ofFailure hE rfl) fun _ w'' hw'' => ?_
  subst hw''
  exact steps_changed

theorem steps_writeAll {E : Writer → Prop} (hE : ∀ data, E (w.extend data)) (data : Bytes) :
    Steps E w (writeAll env data) fun _ w' => w' = w.extend data := by
  refine Steps.bind (Q := fun _ w' => w' = w) (steps_ask fun _ => rfl) fun failure w' hw' => ?_
  subst hw'
  cases failure with
  | none => exact steps_changed
  | some failure =>
    obtain ⟨e, taken⟩ := failure
    refine Steps.bind steps_changed fun _ w'' hw'' => steps_throw ?_
    rw [hw'']
    exact hE _

theorem steps_writeMember {E : Writer → Prop} (hE : ∀ v, v.poisoned = w.poisoned → E v)
    (name : String) (data : Bytes) :
    Steps E w (writeMember env name data) fun _ w' => w' = w.withMembers [⟨name, data, false⟩] := by
  refine Steps.bind (steps_startFile (hE w rfl) name false) fun _ w' hw' => ?_
  have hpoisoned : w'.poisoned = w.poisoned := by rw [hw', poisoned_withMembers]
  refine (steps_writeAll (fun data => hE _ ?_) data).imp fun _ w'' hw'' => ?_
  · rw [poisoned_extend, hpoisoned]
  · rw [hw'', hw']
    exact @extend_withMembers w [] ⟨name, [], false⟩ data

theorem writes_startFile (hw : w.poisoned = true) (name : String) (deflated : Bool) :
    Writes w (startFile env name deflated) fun _ w' => w' = w.withMembers [⟨name, [], deflated⟩] :=
  steps_startFile hw name deflated

theorem writes_writeAll (hw : w.poisoned = true) (data : Bytes) :
    Writes w (writeAll env data) fun _ w' => w' = w.extend data :=
  steps_writeAll (fun data => (poisoned_extend data).trans hw) data

theorem writes_writeMember (hw : w.poisoned = true) (name : String) (data : Bytes) :
    Writes w (writeMember env name data) fun _ w' => w' = w.withMembers [⟨name, data, false⟩] :=
  steps_writeMember (fun _ hv => hv.trans hw) name data

end Members

/-! ## Chunks -/

section Chunks

variable {σ : Type} {libraries : WriterLibraries} {options : WriteOptions} {env : Environment σ}
  {source : Source σ} {size : Nat} {w base : Writer}

/-- A batch is the next chunks of the source. -/
theorem writes_readBatch (hw : w.poisoned = true) (hpos : 0 < options.chunkBytes) (room : Nat)
    (chunks buffers : List Bytes) (h : Taking options.chunkBytes size (chunks ++ buffers)) :
    Writes w (readBatch options source size room ((chunks ++ buffers).flatten.length, buffers))
      fun taken w' => w' = w ∧ Taking options.chunkBytes size (chunks ++ taken.2) ∧
        taken.1 = (chunks ++ taken.2).flatten.length ∧ taken.2.length ≤ buffers.length + room ∧
        buffers.length ≤ taken.2.length ∧
        ((chunks ++ buffers).flatten.length < size → 0 < room →
          buffers.length < taken.2.length) := by
  induction room generalizing buffers with
  | zero => exact steps_pure ⟨rfl, h, rfl, Nat.le_refl _, Nat.le_refl _, fun _ hroom => by omega⟩
  | succ room ih =>
    refine steps_ite (fun hmore => ?_) fun hdone => ?_
    · refine Steps.bind (steps_notify hw) fun _ w' hw' => ?_
      subst hw'
      refine Steps.bind (steps_readExact hw) fun data w'' hw'' => ?_
      subst hw''
      have hnext : Taking options.chunkBytes size (chunks ++ (buffers ++ [data.1])) := by
        rw [← List.append_assoc]
        exact h.push hpos hmore data.2
      have hlength : (chunks ++ (buffers ++ [data.1])).flatten.length =
          (chunks ++ buffers).flatten.length +
            min (size - (chunks ++ buffers).flatten.length) options.chunkBytes := by
        rw [← List.append_assoc, List.flatten_append, List.length_append, List.flatten_singleton,
          data.2]
      have hrest := ih (buffers ++ [data.1]) hnext
      rw [hlength] at hrest
      refine hrest.imp fun taken w'' ⟨hw'', htaking, hdone, hle, hge, _⟩ => ?_
      simp only [List.length_append, List.length_singleton] at hle hge
      exact ⟨hw'', htaking, hdone, by omega, by omega, fun _ _ => by omega⟩
    · exact steps_pure ⟨rfl, h, rfl, Nat.le_add_right _ _, Nat.le_refl _,
        fun hmore _ => absurd hmore hdone⟩

/-- The chunks of a batch go into the last member. -/
theorem writes_writeChunks (hw : base.poisoned = true) (members : List Member) (m : Member)
    (prepared : List PreparedChunk) (bevy : Bevy) :
    Writes (base.withMembers (members ++ [m])) (prepared.foldlM (writeChunk options env) bevy)
      fun bevy' w' => bevy' = prepared.foldl (·.push options) bevy ∧
        w' = base.withMembers (members ++
          [{ m with data := m.data ++ prepared.flatMap (·.storedBytes options) }]) := by
  induction prepared generalizing bevy m with
  | nil => exact steps_pure ⟨rfl, by simp⟩
  | cons chunk prepared ih =>
    rw [List.foldlM_cons]
    refine Steps.bind (Q := fun bevy' w' => bevy' = bevy.push options chunk ∧
      w' = base.withMembers (members ++ [{ m with data := m.data ++ chunk.storedBytes options }]))
      ?_ fun bevy' w' ⟨hbevy, hw'⟩ => ?_
    · have hpoisoned : (base.withMembers (members ++ [m])).poisoned = true := hw
      refine Steps.bind (writes_writeAll hpoisoned _) fun _ w' hw' => steps_pure ⟨rfl, ?_⟩
      rw [hw', extend_withMembers]
    · subst hbevy hw'
      refine (ih _ _).imp fun bevy'' w'' ⟨hbevy, hw''⟩ => ⟨hbevy, ?_⟩
      rw [hw'', List.flatMap_cons, List.append_assoc]

/-- A bevy on its way: its chunks so far, behind those of the bevies in front of it. -/
structure Filling (libraries : WriterLibraries) (options : WriteOptions) (size : Nat)
    (chunks group : List Bytes) (data : Bytes) (sofar : Acquired × Bevy) : Prop where
  taking : Taking options.chunkBytes size (chunks ++ group)
  done : sofar.1.done = (chunks ++ group).flatten.length
  chunk : sofar.1.chunk = (chunks ++ group).length
  hashed : sofar.1.hashed = (chunks ++ group).flatten
  contents : bevyContents libraries options group = .ok (data, sofar.2)
  room : group.length ≤ options.chunksPerBevy

theorem bevyContents_append {group buffers : List Bytes} {data : Bytes} {bevy : Bevy}
    {prepared : List PreparedChunk} (h : bevyContents libraries options group = .ok (data, bevy))
    (hprepared : buffers.mapM (prepareChunk libraries options) = .ok prepared) :
    bevyContents libraries options (group ++ buffers) =
      .ok (data ++ prepared.flatMap (·.storedBytes options),
        prepared.foldl (·.push options) bevy) := by
  simp only [bevyContents, bind_eq_ok, pure_eq_ok, Except.ok.injEq, Prod.mk.injEq] at h
  obtain ⟨before, hbefore, rfl, rfl⟩ := h
  have hall := mapM_append_eq_ok.mpr ⟨before, prepared, hbefore, hprepared, rfl⟩
  simp only [bevyContents, hall, ok_bind, pure_eq_ok, List.flatMap_append, List.foldl_append]

/-- A bevy takes chunks until it is full or the source ends. -/
theorem writes_fillBevy (hw : base.poisoned = true) (hpos : 0 < options.chunkBytes)
    (members : List Member) (m : Member) (chunks : List Bytes) (turns : Nat) (group : List Bytes)
    (sofar : Acquired × Bevy) (h : Filling libraries options size chunks group m.data sofar)
    (hturns : options.chunksPerBevy ≤ group.length + turns) :
    Writes (base.withMembers (members ++ [m]))
      (fillBevy libraries options env source size (chunks.length + options.chunksPerBevy) turns sofar)
      fun sofar' w' => ∃ group' data',
        Filling libraries options size chunks group' data' sofar' ∧
          w' = base.withMembers (members ++ [{ m with data := data' }]) ∧
          (sofar'.1.done = size ∨ group'.length = options.chunksPerBevy) ∧
          group.length ≤ group'.length := by
  induction turns generalizing group sofar m with
  | zero =>
    have hroom := h.room
    exact steps_pure ⟨group, m.data, h, rfl, .inr (by omega), Nat.le_refl _⟩
  | succ turns ih =>
    obtain ⟨acquired, bevy⟩ := sofar
    have hdone : acquired.done = (chunks ++ group).flatten.length := h.done
    have hchunk : acquired.chunk = chunks.length + group.length :=
      h.chunk.trans List.length_append
    have hroom := h.room
    refine steps_ite (fun hmore => ?_) fun hend => ?_
    · have hbatch : 0 < min (automaticEncodeBatchChunks options env.currentNumThreads)
          (chunks.length + options.chunksPerBevy - acquired.chunk) := by
        unfold automaticEncodeBatchChunks
        omega
      have hread := @writes_readBatch σ options source size (base.withMembers (members ++ [m])) hw
        hpos (min (automaticEncodeBatchChunks options env.currentNumThreads)
          (chunks.length + options.chunksPerBevy - acquired.chunk)) (chunks ++ group) []
        (by simpa using h.taking)
      rw [List.append_nil, ← hdone] at hread
      refine Steps.bind hread fun taken w' ⟨hw', htaking, htaken, hle, _, hsome⟩ => ?_
      subst hw'
      obtain ⟨done, buffers⟩ := taken
      simp only [List.length_nil, Nat.zero_add] at hle hsome
      have hbuffers := hsome hmore.1 hbatch
      refine Steps.bind (Q := fun prepared w' => w' = base.withMembers (members ++ [m]) ∧
        buffers.mapM (prepareChunk libraries options) = .ok prepared)
        (steps_ofResult hw fun prepared hprepared => ⟨rfl, hprepared⟩)
        fun prepared w' ⟨hw', hprepared⟩ => ?_
      subst hw'
      refine Steps.bind (writes_writeChunks hw members m prepared bevy)
        fun bevy' w' ⟨hbevy, hw'⟩ => ?_
      subst hbevy hw'
      have hnext : Filling libraries options size chunks (group ++ buffers)
          (m.data ++ prepared.flatMap (·.storedBytes options))
          ({ acquired with
              done
              chunk := acquired.chunk + buffers.length
              hashed := acquired.hashed ++ buffers.flatten },
            prepared.foldl (·.push options) bevy) := by
        have hhashed := h.hashed
        have happend : chunks ++ (group ++ buffers) = chunks ++ group ++ buffers :=
          (List.append_assoc _ _ _).symm
        refine ⟨happend ▸ htaking, happend ▸ htaken, ?_, ?_,
          bevyContents_append h.contents hprepared, ?_⟩
        · simp only [List.length_append, hchunk]
          omega
        · have hflatten : (chunks ++ group ++ buffers).flatten =
              (chunks ++ group).flatten ++ buffers.flatten := List.flatten_append
          rw [happend, hflatten, ← hhashed]
        · rw [List.length_append]
          omega
      have hlength : (group ++ buffers).length = group.length + buffers.length :=
        List.length_append
      refine (ih _ (group ++ buffers) _ hnext (by omega)).imp
        fun sofar' w' ⟨group', data', hfilling, hw', hfull, hge⟩ =>
          ⟨group', data', hfilling, hw', hfull, by omega⟩
    · refine steps_pure ⟨group, m.data, h, rfl, ?_, Nat.le_refl _⟩
      have hle := h.taking.le
      dsimp only at hend ⊢
      omega

/-- Bevies on their way, with the members that they have. -/
structure Stacking (libraries : WriterLibraries) (options : WriteOptions) (size : Nat)
    (storage : String) (groups : List (List Bytes)) (written : List Member) (acquired : Acquired) :
    Prop where
  taking : Taking options.chunkBytes size groups.flatten
  done : acquired.done = groups.flatten.flatten.length
  chunk : acquired.chunk = groups.flatten.length
  hashed : acquired.hashed = groups.flatten.flatten
  grouped : pieces options.chunksPerBevy groups.flatten = groups
  full : acquired.done = size ∨ options.chunksPerBevy ∣ groups.flatten.length
  members : ∃ parts, groups.zipIdx.mapM (bevyMembers libraries options storage) = .ok parts ∧
    written = parts.flatten

theorem flatten_length_pos {chunks group : List Bytes}
    (hpos : 0 < options.chunkBytes) (h : Taking options.chunkBytes size (chunks ++ group))
    (hne : group ≠ []) : chunks.flatten.length < (chunks ++ group).flatten.length := by
  obtain ⟨chunk, rest, rfl⟩ := List.exists_cons_of_ne_nil hne
  have hmem : chunk ∈ pieces options.chunkBytes (chunks ++ chunk :: rest).flatten := by
    rw [h.pieces]
    simp
  have hlength := List.length_pos_iff.mpr (ne_nil_of_mem_pieces hpos hmem).1
  simp only [List.flatten_append, List.flatten_cons, List.length_append]
  omega

/-- One more bevy is complete when it is left. -/
theorem Stacking.push {storage : String} {groups : List (List Bytes)} {written : List Member}
    {acquired : Acquired} {group : List Bytes} {data : Bytes} {bevy : Bevy} {acquired' : Acquired}
    (hcount : 0 < options.chunksPerBevy)
    (h : Stacking libraries options size storage groups written acquired)
    (hmore : acquired.done < size)
    (hfilling : Filling libraries options size groups.flatten group data (acquired', bevy))
    (hend : acquired'.done = size ∨ group.length = options.chunksPerBevy) :
    Stacking libraries options size storage (groups ++ [group]) (written ++
        bevyFiles s!"{storage}/{eightDigits (acquired.chunk / options.chunksPerBevy)}" data bevy)
        acquired' ∧
      group ≠ [] := by
  have hdvd : options.chunksPerBevy ∣ groups.flatten.length := h.full.resolve_left (by omega)
  have hdone : acquired'.done = (groups.flatten ++ group).flatten.length := hfilling.done
  have hne : group ≠ [] := by
    rintro rfl
    rw [List.append_nil, ← h.done] at hdone
    rcases hend with hend | hend
    · omega
    · rw [List.length_nil] at hend
      omega
  have hflatten : (groups ++ [group]).flatten = groups.flatten ++ group := by simp
  have hnumber : acquired.chunk / options.chunksPerBevy = groups.length := by
    have hlengths := congrArg List.length (map_length_pieces hcount hdvd)
    rw [h.grouped, List.length_map, List.length_replicate] at hlengths
    rw [h.chunk, hlengths]
  obtain ⟨parts, hparts, hwritten⟩ := h.members
  refine ⟨⟨hflatten ▸ hfilling.taking, hflatten ▸ hdone, hflatten ▸ hfilling.chunk,
    hflatten ▸ hfilling.hashed, ?_, ?_, ?_⟩, hne⟩
  · rw [hflatten, pieces_append hcount hdvd, h.grouped, pieces_of_length_le hne hfilling.room]
  · rcases hend with hend | hend
    · exact .inl hend
    · right
      rw [hflatten, List.length_append, hend]
      exact Nat.dvd_add hdvd (Nat.dvd_refl _)
  · rw [hnumber, List.zipIdx_append]
    have hgroup : bevyMembers libraries options storage (group, 0 + groups.length) =
        .ok (bevyFiles s!"{storage}/{eightDigits groups.length}" data bevy) := by
      simp only [bevyMembers, Nat.zero_add]
      rw [hfilling.contents]
      rfl
    exact ⟨_, mapM_append_eq_ok.mpr ⟨parts, _, hparts,
      mapM_cons_eq_ok.mpr ⟨_, [], hgroup, rfl, rfl⟩, rfl⟩, by simp [hwritten]⟩

theorem writes_writeBevy {storage : String} {groups : List (List Bytes)} {written : List Member}
    {acquired : Acquired} (hw : base.poisoned = true) (hpos : 0 < options.chunkBytes)
    (hcount : 0 < options.chunksPerBevy)
    (h : Stacking libraries options size storage groups written acquired)
    (hmore : acquired.done < size) :
    Writes (base.withMembers written) (writeBevy libraries options env source size storage acquired)
      fun acquired' w' => ∃ groups' written',
        Stacking libraries options size storage groups' written' acquired' ∧
          w' = base.withMembers written' ∧ acquired.done < acquired'.done := by
  have hwritten : ∀ members, (base.withMembers members).poisoned = true := fun _ => hw
  refine Steps.bind (writes_startFile (hwritten written) _ false) fun _ w' hw' => ?_
  rw [withMembers_withMembers] at hw'
  subst hw'
  have hempty : Filling libraries options size groups.flatten [] [] (acquired, {}) :=
    ⟨by simpa using h.taking, by simpa using h.done, by simpa using h.chunk, by simpa using h.hashed,
      rfl, Nat.zero_le _⟩
  have hfill := @writes_fillBevy σ libraries options env source size base hw hpos written
    ⟨s!"{storage}/{eightDigits (acquired.chunk / options.chunksPerBevy)}", [], false⟩
    groups.flatten options.chunksPerBevy [] (acquired, {}) hempty (by simp)
  rw [← h.chunk] at hfill
  refine Steps.bind hfill fun sofar w' ⟨group, data, hfilling, hw', hend, _⟩ => ?_
  subst hw'
  obtain ⟨acquired', bevy⟩ := sofar
  obtain ⟨hpush, hne⟩ := h.push hcount hmore hfilling hend
  refine Steps.bind (writes_writeMember (hwritten _) _ _) fun _ w' hw' => ?_
  rw [withMembers_withMembers] at hw'
  subst hw'
  refine Steps.bind (writes_writeMember (hwritten _) _ _) fun _ w' hw' => ?_
  rw [withMembers_withMembers] at hw'
  subst hw'
  refine Steps.bind (writes_writeMember (hwritten _) _ _) fun _ w' hw' => ?_
  rw [withMembers_withMembers] at hw'
  subst hw'
  refine steps_pure ⟨groups ++ [group], _, ⟨hpush.taking, hpush.done, hpush.chunk, hpush.hashed,
    hpush.grouped, hpush.full, hpush.members⟩, by simp [bevyFiles], ?_⟩
  have hlt := flatten_length_pos hpos hfilling.taking hne
  have hdone := h.done
  have hdone' := hfilling.done
  dsimp only at hdone' ⊢
  omega

/-- All bytes of a source go into bevies. -/
theorem writes_writeBevies {storage : String} (hw : base.poisoned = true)
    (hpos : 0 < options.chunkBytes) (hcount : 0 < options.chunksPerBevy) (turns : Nat)
    (groups : List (List Bytes)) (written : List Member) (acquired : Acquired)
    (h : Stacking libraries options size storage groups written acquired)
    (hturns : size ≤ acquired.done + turns) :
    Writes (base.withMembers written)
      (writeBevies libraries options env source size storage turns acquired)
      fun acquired' w' => ∃ groups' written',
        Stacking libraries options size storage groups' written' acquired' ∧
          w' = base.withMembers written' ∧ acquired'.done = size := by
  have hle : ∀ {groups written acquired},
      Stacking libraries options size storage groups written acquired → acquired.done ≤ size :=
    fun h => h.done ▸ h.taking.le
  induction turns generalizing groups written acquired with
  | zero =>
    have hdone := hle h
    exact steps_pure ⟨groups, written, h, rfl, by omega⟩
  | succ turns ih =>
    refine steps_ite (fun hmore => ?_) fun hend => ?_
    · refine Steps.bind (writes_writeBevy hw hpos hcount h hmore)
        fun acquired' w' ⟨groups', written', hstacking, hw', hlt⟩ => ?_
      subst hw'
      exact ih groups' written' acquired' hstacking (by omega)
    · have hdone := hle h
      exact steps_pure ⟨groups, written, h, rfl, by omega⟩

end Chunks

/-! ## Additions -/

theorem length_pieces {α : Type} {size : Nat} (hsize : 0 < size) (xs : List α) :
    (pieces size xs).length = divCeil xs.length size := by
  induction hn : xs.length using Nat.strongRecOn generalizing xs with
  | ind n ih =>
    by_cases hnil : xs = []
    · subst hnil
      rw [← hn]
      simp [divCeil]
    · have hpos : 0 < xs.length := List.length_pos_iff.mpr hnil
      have hdrop : (xs.drop size).length = n - size := by rw [List.length_drop, hn]
      rw [pieces_of_ne_nil hsize hnil, List.length_cons, ih _ (by omega) _ hdrop]
      have hge := @divCeil_mul_ge (n - size) size hsize
      have hlt := @divCeil_mul_lt (n - size) size hsize
      refine divCeil_unique hsize ?_ fun _ => ?_
      · rw [Nat.add_mul]
        omega
      · rw [Nat.add_sub_cancel]
        by_cases hshort : n ≤ size
        · have hzero : n - size = 0 := by omega
          rw [hzero]
          simp [divCeil]
          omega
        · omega

section Additions

variable {σ : Type} {libraries : WriterLibraries} {env : Environment σ} {source : Source σ}
  {size : Nat} {w w' : Writer} {options : WriteOptions}

theorem length_flatten_bevies {storage : String} {bevies : List (List Bytes × Nat)}
    {parts : List (List Member)}
    (h : bevies.mapM (bevyMembers libraries options storage) = .ok parts) :
    parts.flatten.length = 4 * bevies.length := by
  induction bevies generalizing parts with
  | nil =>
    cases h
    rfl
  | cons bevy bevies ih =>
    obtain ⟨part, rest, hpart, hrest, rfl⟩ := mapM_cons_eq_ok.mp h
    simp only [bevyMembers, bind_eq_ok, pure_eq_ok, Except.ok.injEq] at hpart
    obtain ⟨_, _, rfl⟩ := hpart
    rw [List.flatten_cons, List.length_append, ih hrest]
    simp only [bevyFiles, List.length_cons, List.length_nil]
    omega

theorem Addition.length_chunkedMembers {addition : Addition} {storage : String}
    {members : List Member} (hpos : 0 < options.chunkBytes) (hcount : 0 < options.chunksPerBevy)
    (h : addition.chunkedMembers libraries options storage = .ok members) :
    members.length =
      4 * divCeil (divCeil addition.bytes.length options.chunkBytes) options.chunksPerBevy := by
  simp only [Addition.chunkedMembers, bind_eq_ok, pure_eq_ok, Except.ok.injEq] at h
  obtain ⟨parts, hparts, rfl⟩ := h
  rw [length_flatten_bevies hparts, List.length_zipIdx, ← length_pieces hpos,
    ← length_pieces hcount]

theorem Addition.length_members {addition : Addition} {members : List Member}
    (hpos : 0 < options.chunkBytes) (hcount : 0 < options.chunksPerBevy)
    (h : addition.members libraries options = .ok members) :
    members.length = addition.placement.kind.entries options addition.bytes.length := by
  unfold Addition.members at h
  cases hplacement : addition.placement with
  | segment storage =>
    rw [hplacement] at h
    cases h
    rfl
  | file storage =>
    rw [hplacement] at h
    exact Addition.length_chunkedMembers hpos hcount h
  | image storage mapStorage stream =>
    rw [hplacement] at h
    simp only [bind_eq_ok, pure_eq_ok, Except.ok.injEq] at h
    obtain ⟨chunked, hchunked, rfl⟩ := h
    rw [List.length_append, Addition.length_chunkedMembers hpos hcount hchunked]
    rfl

/-- The members of a stream that has been acquired, and their number. -/
theorem Stacking.complete {storage : String} {groups : List (List Bytes)} {written : List Member}
    {acquired : Acquired} (hpos : 0 < options.chunkBytes) (hcount : 0 < options.chunksPerBevy)
    (h : Stacking libraries options size storage groups written acquired)
    (hdone : acquired.done = size) {addition : Addition}
    (haddition : addition.bytes = acquired.hashed) :
    addition.chunkedMembers libraries options storage = .ok written ∧
      addition.bytes.length = size ∧
      written.length = 4 * divCeil (divCeil size options.chunkBytes) options.chunksPerBevy := by
  obtain ⟨parts, hparts, rfl⟩ := h.members
  have hbytes : addition.bytes = groups.flatten.flatten := haddition.trans h.hashed
  have hlength : addition.bytes.length = size := by rw [hbytes, ← h.done, hdone]
  have hchunks : pieces options.chunkBytes addition.bytes = groups.flatten := by
    rw [hbytes, h.taking.pieces]
  have hmembers : addition.chunkedMembers libraries options storage = .ok parts.flatten := by
    unfold Addition.chunkedMembers
    rw [hchunks, h.grouped]
    dsimp only
    rw [hparts]
    rfl
  exact ⟨hmembers, hlength, hlength ▸ Addition.length_chunkedMembers hpos hcount hmembers⟩

/-- The writer has taken the whole of an image or a file with this size. -/
def Added (libraries : WriterLibraries) (size : Nat) (kind : Kind) (w : Writer) (id : String)
    (w' : Writer) : Prop :=
  ∃ (addition : Addition) (members : List Member) (text : Bytes),
    addition.members libraries w.options = .ok members ∧
      addition.bytes.length = size ∧ addition.placement.kind = kind ∧ addition.id = id ∧
      w' = { w with
        members := w.members ++ members
        archiveEntries := w.archiveEntries + members.length
        metadata := w.metadata ++ text
        streams := w.streams ++ [addition.stream libraries]
        poisoned := false }

theorem steps_setPoisoned {E : Writer → Prop} (poisoned : Bool) :
    Steps E w (setPoisoned poisoned : Write σ Unit) fun _ w' => w' = { w with poisoned } :=
  steps_modify rfl

theorem steps_pushMetadata {E : Writer → Prop} (text : String) :
    Steps E w (pushMetadata text : Write σ Unit)
      fun _ w' => w' = { w with metadata := w.metadata ++ utf8Bytes text } :=
  steps_modify rfl

theorem writes_countEntries (hw : w.poisoned = true) (entries : Nat) :
    Writes w (countEntries entries : Write σ Unit)
      fun _ w' => w' = { w with archiveEntries := w.archiveEntries + entries } := by
  refine steps_writer_bind ?_
  refine Steps.bind (Q := fun total v => v = w ∧ total = w.archiveEntries + entries)
    (steps_ofResult hw fun total htotal => ⟨rfl, ?_⟩) fun total w' ⟨hw', htotal⟩ => ?_
  · rw [okOr_eq_ok, checkedAdd_eq_some] at htotal
    exact htotal.2.symm
  · subst hw' htotal
    exact steps_modify rfl

theorem writes_chunkedNames (volume : String) (logical : Bool) :
    Writes w (chunkedNames env volume logical) fun _ w' => w' = w := by
  refine Steps.bind (Q := fun _ w' => w' = w) (steps_ask fun _ => rfl) fun first w' hw' => ?_
  subst hw'
  refine steps_ite (fun _ => ?_) fun _ => ?_
  · exact Steps.bind (Q := fun _ v => v = w') (steps_ask fun _ => rfl)
      fun _ _ hv => steps_pure hv
  · refine Steps.bind (Q := fun _ v => v = w') (steps_ask fun _ => rfl) fun _ v hv => ?_
    exact Steps.bind (Q := fun _ v' => v' = v) (steps_ask fun _ => rfl)
      fun _ _ hv' => steps_pure (hv'.trans hv)

theorem writes_accept (result : AcquiredStream) (id : String) :
    Writes w (do
        modifyWriter fun w => { w with streams := w.streams ++ [result] }
        setPoisoned false
        return id : Write σ String)
      fun id' w' => id' = id ∧
        w' = { w with streams := w.streams ++ [result], poisoned := false } := by
  refine Steps.bind (Q := fun _ v => v = { w with streams := w.streams ++ [result] })
    (steps_modify rfl) fun _ v hv => ?_
  refine Steps.bind (steps_setPoisoned false) fun _ v' hv' => steps_pure ⟨rfl, ?_⟩
  rw [hv', hv]

/-- What an addition does when all of its members are complete. -/
theorem writes_record (size : Nat) (text : String) (result : AcquiredStream) (id : String) :
    Writes w (do
        if size ≠ 0 then pushMetadata text
        modifyWriter fun w => { w with streams := w.streams ++ [result] }
        setPoisoned false
        return id : Write σ String)
      fun id' w' => id' = id ∧ ∃ text', w' = { w with
        metadata := w.metadata ++ text'
        streams := w.streams ++ [result]
        poisoned := false } := by
  refine steps_ite (fun _ => ?_) fun _ => ?_
  · refine Steps.bind (steps_pushMetadata text) fun _ v hv => ?_
    refine (writes_accept result id).imp fun id' w' ⟨hid, hw'⟩ => ⟨hid, utf8Bytes text, ?_⟩
    rw [hw', hv]
  · refine (writes_accept result id).imp fun id' w' ⟨hid, hw'⟩ => ⟨hid, [], ?_⟩
    rw [hw', List.append_nil]

theorem chunkedEntries_eq {logical : Bool} {entries : Nat}
    (h : chunkedEntries options size logical = some entries) :
    entries = 4 * divCeil (divCeil size options.chunkBytes) options.chunksPerBevy +
      if logical then 0 else 2 := by
  simp only [chunkedEntries, Option.bind_eq_bind, Option.bind_eq_some_iff, checkedMul_eq_some,
    checkedAdd_eq_some] at h
  obtain ⟨members, ⟨_, rfl⟩, _, rfl⟩ := h
  rw [Nat.mul_comm]

/-- An image or a chunked file is added as a whole. -/
theorem writes_addChunked (hpos : 0 < w.options.chunkBytes) (hcount : 0 < w.options.chunksPerBevy)
    (logicalPath : Option String) (extraProperties : String) :
    Writes w (addChunked libraries env source size logicalPath extraProperties)
      (Added libraries size (if logicalPath.isSome then .file else .image) w) := by
  refine Steps.bind (steps_setPoisoned true) fun _ w₁ hw₁ => ?_
  have hpoisoned : w₁.poisoned = true := by rw [hw₁]
  refine steps_writer_bind ?_
  have hoptions : w₁.options = w.options := by rw [hw₁]
  refine Steps.bind (Q := fun entries w' => w' = w₁ ∧
      chunkedEntries w₁.options size logicalPath.isSome = some entries)
    (steps_ofResult hpoisoned fun entries hentries => ⟨rfl, okOr_eq_ok.mp hentries⟩)
    fun entries w' ⟨hw', hentries⟩ => ?_
  subst hw'
  refine Steps.bind (writes_countEntries hpoisoned entries) fun _ w₂ hw₂ => ?_
  have hpoisoned₂ : w₂.poisoned = true := by rw [hw₂, hpoisoned]
  refine Steps.bind (writes_chunkedNames _ _) fun names w'' hw'' => ?_
  subst hw''
  have hempty : Stacking libraries w'.options size names.storage [] [] {} :=
    ⟨Taking.nil _ _, rfl, rfl, rfl, rfl, .inr (Nat.dvd_zero _), [], rfl, rfl⟩
  rw [← hoptions] at hpos hcount
  have hbevies := @writes_writeBevies σ libraries w'.options env source size w'' names.storage
    hpoisoned₂ hpos hcount size [] [] {} hempty (by simp)
  rw [withMembers_nil] at hbevies
  refine Steps.bind hbevies fun acquired v ⟨groups, written, hstacking, hv, hdone⟩ => ?_
  have hpoisoned₃ : v.poisoned = true := by rw [hv, poisoned_withMembers, hpoisoned₂]
  refine Steps.bind (steps_notify hpoisoned₃) fun _ v' hv' => ?_
  subst hv'
  cases logicalPath with
  | some path =>
    obtain ⟨hmembers, hsize, hlength⟩ := hstacking.complete hpos hcount hdone
      (Eq.refl (Addition.mk names.id acquired.hashed (.file names.storage)).bytes)
    have hentries' : entries = written.length := (chunkedEntries_eq hentries).trans hlength.symm
    refine Steps.bind (steps_pushMetadata _) fun _ u hu => ?_
    obtain ⟨text, hu⟩ : ∃ text, u = { v' with metadata := v'.metadata ++ text } := ⟨_, hu⟩
    refine (writes_record _ _ _ _).imp fun id u' ⟨hid, text', hu'⟩ => ?_
    refine ⟨⟨names.id, acquired.hashed, .file names.storage⟩, written, text ++ text',
      hoptions ▸ hmembers, hsize, rfl, hid.symm, ?_⟩
    rw [hu', hu, hv, hw₂, hw₁, hentries', ← List.append_assoc, Addition.stream, hsize]
    rfl
  | none =>
    obtain ⟨hmembers, hsize, hlength⟩ := hstacking.complete hpos hcount hdone
      (Eq.refl (Addition.mk names.id acquired.hashed
        (.image names.storage names.mapStorage names.stream)).bytes)
    have hentries' : entries = written.length + 2 := by
      rw [hlength]
      exact chunkedEntries_eq hentries
    refine Steps.bind (writes_writeMember hpoisoned₃ _ _) fun _ u₁ hu₁ => ?_
    have hpoisoned₄ : u₁.poisoned = true := by rw [hu₁, poisoned_withMembers, hpoisoned₃]
    refine Steps.bind (writes_writeMember hpoisoned₄ _ _) fun _ u₂ hu₂ => ?_
    refine Steps.bind (steps_pushMetadata _) fun _ u hu => ?_
    obtain ⟨text, hu⟩ : ∃ text, u = { u₂ with metadata := u₂.metadata ++ text } := ⟨_, hu⟩
    refine (writes_record _ _ _ _).imp fun id u' ⟨hid, text', hu'⟩ => ?_
    refine ⟨⟨names.id, acquired.hashed, .image names.storage names.mapStorage names.stream⟩,
      written ++ [⟨names.mapStorage ++ "/map", mapPoints size, false⟩,
        ⟨names.mapStorage ++ "/idx", utf8Bytes s!"{names.stream}\n", false⟩], text ++ text', ?_,
      hsize, rfl, hid.symm, ?_⟩
    · unfold Addition.members
      dsimp only
      rw [← hoptions, hmembers, hsize]
      rfl
    · rw [hu', hu, hu₂, hu₁, hv, hw₂, hw₁, hentries', ← List.append_assoc, Addition.stream, hsize]
      simp [Writer.withMembers]

/-- The bytes of a file go into the member that has been started for it. -/
theorem writes_copyFile (hw : w.poisoned = true) (name : String) (deflated : Bool) (turns done : Nat)
    (hashed : Bytes) (hdone : hashed.length = done) (hle : done ≤ size)
    (hturns : size < done + turns) :
    Writes (w.withMembers [⟨name, hashed, deflated⟩])
      (copyFile env source size turns (done, hashed))
      fun hashed' w' => hashed'.length = size ∧ w' = w.withMembers [⟨name, hashed', deflated⟩] := by
  have hpoisoned : ∀ members, (w.withMembers members).poisoned = true := fun _ => hw
  induction turns generalizing done hashed with
  | zero => omega
  | succ turns ih =>
    refine Steps.bind (steps_notify (hpoisoned _)) fun _ w' hw' => ?_
    subst hw'
    refine steps_ite (fun hend => ?_) fun hmore => ?_
    · exact steps_pure ⟨hdone.trans hend, rfl⟩
    · refine Steps.bind (steps_readExact (hpoisoned _)) fun data w' hw' => ?_
      subst hw'
      refine Steps.bind (writes_writeAll (hpoisoned _) data.1) fun _ w' hw' => ?_
      have hextend := @extend_withMembers w [] ⟨name, hashed, deflated⟩ data.1
      rw [List.nil_append, List.nil_append] at hextend
      rw [hextend] at hw'
      subst hw'
      have hlength := data.2
      refine ih _ (hashed ++ data.1) ?_ (by omega) (by omega)
      rw [List.length_append, hdone, hlength]

/-- A file in one member is added as a whole. -/
theorem writes_addSegment (libraries : WriterLibraries) (volume storage path extraProperties : String)
    (deflated : Bool) (hdeflated : deflated = decide (w.options.compression ≠ .stored)) :
    Writes { w with poisoned := true } (do
        countEntries 1
        startFile env storage deflated
        let hashed ← copyFile env source size (size + 1) (0, [])
        let result := finishHashes libraries hashed s!"{volume}/{storage}" size
        pushMetadata (segmentText libraries volume extraProperties path result)
        modifyWriter fun w => { w with streams := w.streams ++ [result] }
        setPoisoned false
        return s!"{volume}/{storage}" : Write σ String)
      (Added libraries size .segment w) := by
  refine Steps.bind (writes_countEntries rfl 1) fun _ w₁ hw₁ => ?_
  have hpoisoned : w₁.poisoned = true := by rw [hw₁]
  refine Steps.bind (writes_startFile hpoisoned storage deflated) fun _ w₂ hw₂ => ?_
  subst hw₂
  refine Steps.bind (writes_copyFile hpoisoned storage deflated (size + 1) 0 [] rfl (Nat.zero_le _)
    (by omega)) fun hashed w₃ ⟨hlength, hw₃⟩ => ?_
  refine Steps.bind (steps_pushMetadata _) fun _ w₄ hw₄ => ?_
  obtain ⟨text, hw₄⟩ : ∃ text, w₄ = { w₃ with metadata := w₃.metadata ++ text } := ⟨_, hw₄⟩
  refine (writes_accept _ _).imp fun id w' ⟨hid, hw'⟩ => ?_
  refine ⟨⟨s!"{volume}/{storage}", hashed, .segment storage⟩, _, text, rfl, hlength, rfl, hid.symm, ?_⟩
  rw [hw', hw₄, hw₃, hw₁, hdeflated, Addition.stream, hlength]
  rfl

end Additions

end EwfImage.Aff4.Writing
