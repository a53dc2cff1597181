import EwfImage.Aff4.Denotation
import EwfImage.Aff4.VerifyAll

/-!
# Histories of a container

A container is used by one call after the other: positioned and sequential reads, copies and
verifications, whose listeners may answer by all they have been told. Each call leaves the
caches coherent, so that after any history a read delivers what its resource denotes.

The main result is `readAt_denotes`. What a resource denotes is defined in `Aff4.Denotation`,
byte by byte and without caches; here every call with caches is shown to come to it. The caches
may hold anything that the container itself put there in the history, and the number of entries
they keep is for the library of caches to decide. Nothing is assumed of the container but that
it was opened: references may lead anywhere, also back, in which case the byte is undefined and
the read fails.
-/

namespace EwfImage.Aff4

open ByteStore Delivery Fallible LruCache Queries Triples

namespace Container

variable (c : Container)

/-! ## References -/

/-- The address that the byte at an address is read from, if it is read through a reference. -/
def reference (id : String) (position : Nat) : Option (String × Nat) :=
  match symbolicByte id, c.inlineData id, c.value id "dataStream" with
  | none, .ok none, .ok (some target) => some (target, position)
  | none, .ok none, .ok none =>
    if c.isZipSegment id ∨ ¬ c.hasType id "Map" then none
    else do
      let map ← (c.map id).toOption
      return map.place position
  | _, _, _ => none

/-- The resources that are passed when references are followed from an address. -/
inductive Follows : String → Nat → List String → Prop
  | here (id : String) (position : Nat) : Follows id position [id]
  | next {id target : String} {position targetOffset : Nat} {trail : List String}
      (step : c.reference id position = some (target, targetOffset))
      (rest : Follows target targetOffset trail) : Follows id position (id :: trail)

variable {c} {id : String} {position : Nat}

/-- A byte is there only if the resource can be entered. -/
theorem enter_of_byteAt {depth : Nat} {visited : List String} {byte : UInt8}
    (h : c.byteAt (depth + 1) visited id position = some byte) :
    enter id visited = .ok (id :: visited) := by
  rw [byteAt_succ] at h
  cases henter : enter id visited with
  | error e =>
    rw [henter] at h
    cases h
  | ok visited' => rw [(enter_eq_ok henter).1]

/-- The byte of a reference is the byte that it leads to. -/
theorem byteAt_of_reference {depth targetOffset : Nat} {visited : List String} {target : String}
    {byte : UInt8} (hstep : c.reference id position = some (target, targetOffset))
    (h : c.byteAt (depth + 1) visited id position = some byte) :
    c.byteAt depth (id :: visited) target targetOffset = some byte := by
  have henter := enter_of_byteAt h
  unfold reference at hstep
  cases hsymbolic : symbolicByte id with
  | some symbolic =>
    rw [hsymbolic] at hstep
    cases hstep
  | none =>
    rw [hsymbolic] at hstep
    rw [byteAt_of_not_symbolic henter hsymbolic] at h
    obtain ⟨size, -, hstored⟩ := Option.bind_eq_some_iff.mp h
    have hin : position < size := by
      by_contra hout
      rw [if_neg hout] at hstored
      cases hstored
    rw [if_pos hin, storedByte] at hstored
    cases hinline : c.inlineData id with
    | error e =>
      rw [hinline] at hstored
      cases hstored
    | ok inline =>
      cases inline with
      | some data =>
        rw [hinline] at hstep
        cases hstep
      | none =>
        rw [hinline] at hstep hstored
        change (_ >>= fun found : Option String => _) = some byte at hstored
        cases hvalue : c.value id "dataStream" with
        | error e =>
          rw [hvalue] at hstep
          cases hstep
        | ok found =>
          rw [hvalue] at hstep hstored
          cases found with
          | some direct =>
            cases hstep
            change c.targetByte _ id target size position = some byte at hstored
            unfold targetByte at hstored
            by_cases hcontiguous : c.hasType id "ContiguousImage" ∧ c.hasType target "Map"
            · rw [if_pos hcontiguous] at hstored
              obtain ⟨_, -, hchecked⟩ := Option.bind_eq_some_iff.mp hstored
              obtain ⟨_, -, hbyte⟩ := Option.bind_eq_some_iff.mp hchecked
              exact hbyte
            · rw [if_neg hcontiguous] at hstored
              exact hstored
          | none =>
            change c.ownByte _ id size position = some byte at hstored
            unfold ownByte at hstored
            dsimp only at hstep
            by_cases hnot : c.isZipSegment id = true ∨ ¬ c.hasType id "Map" = true
            · rw [if_pos hnot] at hstep
              cases hstep
            · rw [if_neg hnot] at hstep
              rw [not_or, not_not] at hnot
              rw [if_neg hnot.1, if_pos hnot.2] at hstored
              obtain ⟨map, hmap, hbyte⟩ := Option.bind_eq_some_iff.mp hstored
              rw [hmap] at hstep
              have hplace : map.place position = (target, targetOffset) := Option.some.inj hstep
              rw [hplace] at hbyte
              exact hbyte

/-- A byte is there only at the end of few references that lead to new resources. -/
theorem nodup_of_byteAt {trail : List String} (hfollows : c.Follows id position trail) :
    ∀ {depth : Nat} {visited : List String} {byte : UInt8},
      c.byteAt depth visited id position = some byte →
      trail.Nodup ∧ (∀ other ∈ trail, other ∉ visited) ∧ visited.length + trail.length ≤ 32 := by
  induction hfollows with
  | here id position =>
    intro depth visited byte h
    cases depth with
    | zero => cases h
    | succ depth =>
      obtain ⟨-, hlength, hfresh⟩ := enter_eq_ok (enter_of_byteAt h)
      refine ⟨List.pairwise_singleton _ _, fun other hother => ?_, hlength⟩
      rw [List.mem_singleton.mp hother]
      exact hfresh
  | @next id target position targetOffset trail hstep _ ih =>
    intro depth visited byte h
    cases depth with
    | zero => cases h
    | succ depth =>
      obtain ⟨-, -, hfresh⟩ := enter_eq_ok (enter_of_byteAt h)
      obtain ⟨hnodup, hothers, hlength⟩ := ih (byteAt_of_reference hstep h)
      refine ⟨List.nodup_cons.mpr ⟨fun hmem => hothers id hmem List.mem_cons_self, hnodup⟩, ?_, ?_⟩
      · intro other hother
        rcases List.mem_cons.mp hother with rfl | hrest
        · exact hfresh
        · exact fun hold => hothers other hrest (List.mem_cons_of_mem _ hold)
      · rw [List.length_cons] at hlength ⊢
        omega

/-! ## Operations -/

variable {lru : Interface}

/-- The state that a computation leaves. -/
def stateAfter {ε σ α : Type} : EStateM.Result ε σ α → σ
  | .ok _ s => s
  | .error _ s => s

theorem keeps_stateAfter {ε σ α : Type} {P : σ → Prop} {x : EStateM ε σ α} {s : σ}
    (h : Triple P x (fun _ => P) fun _ => P) (hs : P s) : P (stateAfter (x s)) := by
  have hrun := h s hs
  cases hx : x s with
  | ok a s' =>
    rw [hx] at hrun
    exact hrun
  | error e s' =>
    rw [hx] at hrun
    exact hrun

/-- A listener answers by what it has been told before. -/
def hear (listener : List Signal → Signal → Bool) (signal : Signal) (told : List Signal) :
    Bool × List Signal := (listener told signal, told ++ [signal])

/-- One call on a container. -/
inductive Operation where
  | readAt (id : String) (offset length : Nat)
  | readAtUncached (id : String) (offset length : Nat)
  /-- A sequential reader, read with buffers of the given lengths. -/
  | readSequentially (id : String) (lengths : List Nat)
  | copyVerified (id : String) (listener : List Signal → Signal → Bool)
  | verifyAll (expectedMetadataSha256 : Option String) (listener : List Signal → Signal → Bool)

variable (c) in
def readSequentially (id : String) (lengths : List Nat) : c.Reading Nat := do
  let reader ← c.sequentialReader id
  lengths.foldlM (fun position length => do
    let bytes ← reader.read c length position
    return position + bytes.length) 0

variable (c) in
/-- The caches after a call. -/
def after (s : Caches lru) : Operation → Caches lru
  | .readAt id offset length => stateAfter ((c.readAt id offset length).run c.serve s)
  | .readAtUncached id offset length =>
    stateAfter ((c.readAtUncached id offset length).run c.serve s)
  | .readSequentially id lengths => stateAfter ((c.readSequentially id lengths).run c.serve s)
  | .copyVerified id listener =>
    (stateAfter ((c.copyVerified id).run (Program.listen c.serve (hear listener)) (s, []))).1
  | .verifyAll expected listener =>
    (stateAfter ((c.verifyAll expected).run (Program.listen c.serve (hear listener)) (s, []))).1

variable (c) in
/-- The caches of a new container behind the calls. -/
def cachesAfter (lru : Interface) (operations : List Operation) : Caches lru :=
  operations.foldl c.after {}

theorem coherent_after {valid : DecodedCacheKey → Bytes → Prop} (hvalid : c.Admits valid)
    {s : Caches lru} (operation : Operation) (hs : c.Coherent lru valid s) :
    c.Coherent lru valid (c.after s operation) := by
  have hserve : ∀ query, Triple (c.Coherent lru valid) (c.serve query)
      (fun _ => c.Coherent lru valid) fun _ => c.Coherent lru valid :=
    fun query => (serves_answer hvalid query).keeps
  cases operation with
  | readAt id offset length => exact keeps_stateAfter (Program.run_keeps hserve _) hs
  | readAtUncached id offset length => exact keeps_stateAfter (Program.run_keeps hserve _) hs
  | readSequentially id lengths => exact keeps_stateAfter (Program.run_keeps hserve _) hs
  | copyVerified id listener =>
    exact keeps_stateAfter (P := fun s : Caches lru × List Signal => c.Coherent lru valid s.1)
      (Program.run_keeps (Program.keeps_listen hserve (hear listener)) _) hs
  | verifyAll expected listener =>
    exact keeps_stateAfter (P := fun s : Caches lru × List Signal => c.Coherent lru valid s.1)
      (Program.run_keeps (Program.keeps_listen hserve (hear listener)) _) hs

/-- The caches are coherent after every history. -/
theorem coherent_cachesAfter (lru : Interface) (operations : List Operation) :
    c.Coherent lru c.OwnEntry (c.cachesAfter lru operations) := by
  have hkept : ∀ s, c.Coherent lru c.OwnEntry s →
      c.Coherent lru c.OwnEntry (operations.foldl c.after s) := by
    induction operations with
    | nil => exact fun s hs => hs
    | cons operation rest ih => exact fun s hs => ih _ (coherent_after c.admits_ownEntry operation hs)
  exact hkept {} (coherent_new c lru _)

/-! ## Reads after a history -/

theorem delivers_readResource (useDecodedCache : Bool) {offset length : Nat}
    (hlength : 0 < length) :
    Delivers (c.denotes id) offset length
      ((c.readResource useDecodedCache id offset length).eval c.answer) :=
  delivers_readInner useDecodedCache 32 [] id offset length hlength

/-- Without caches a positioned read delivers what is left of the resource at its offset. -/
theorem delivers_readAtImpl (useDecodedCache : Bool) {offset length size : Nat}
    (hsize : c.size id = .ok size) :
    Delivers (c.denotes id) offset (min (size - offset) length)
      ((c.readAtImpl useDecodedCache id offset length).eval c.answer) := by
  rw [readAtImpl, Program.eval_bind, Program.eval_lift, hsize, ok_bind, Program.eval_ite]
  by_cases hnone : size ≤ offset ∨ length = 0
  · rw [if_pos hnone, show min (size - offset) length = 0 by omega]
    exact delivers_ok rfl
  · rw [if_neg hnone]
    exact delivers_readResource useDecodedCache (by omega)

theorem readAtImpl_of_size_error (useDecodedCache : Bool) {offset length : Nat} {e : Error}
    (hsize : c.size id = .error e) :
    (c.readAtImpl useDecodedCache id offset length).eval c.answer = .error e := by
  rw [readAtImpl, Program.eval_bind, Program.eval_lift, hsize]
  rfl

/-- The result of a read without caches: the defined bytes of a resource with a size. -/
theorem eval_readAt_eq_ok {offset length : Nat} {bytes : Bytes} :
    (c.readAt id offset length).eval c.answer = .ok bytes ↔
      ∃ size, c.size id = .ok size ∧
        window (c.denotes id) offset (min (size - offset) length) = bytes.map some := by
  cases hsize : c.size id with
  | error e =>
    rw [readAt, readAtImpl_of_size_error true hsize]
    exact ⟨fun hok => (by cases hok), fun ⟨_, hok, _⟩ => (by cases hok)⟩
  | ok size =>
    rw [readAt, delivers_readAtImpl true hsize bytes]
    exact ⟨fun hwindow => ⟨size, rfl, hwindow⟩, fun ⟨_, hok, hwindow⟩ => by cases hok; exact hwindow⟩

theorem eval_readAt_error_iff {offset length : Nat} :
    (∃ e, (c.readAt id offset length).eval c.answer = .error e) ↔
      ∀ size, c.size id = .ok size →
        ∃ i, i < min (size - offset) length ∧ c.denotes id (offset + i) = none := by
  cases hsize : c.size id with
  | error e =>
    rw [readAt, readAtImpl_of_size_error true hsize]
    exact ⟨fun _ _ hok => (by cases hok), fun _ => ⟨e, rfl⟩⟩
  | ok size =>
    rw [readAt, (delivers_readAtImpl true hsize).error_iff]
    exact ⟨fun hnone _ hok => by cases hok; exact hnone, fun h => h size rfl⟩

/-- Two consecutive reads without caches make up the large one. -/
theorem eval_readAt_add (offset m n : Nat) (bytes : Bytes) :
    (c.readAt id offset (m + n)).eval c.answer = .ok bytes ↔
      ∃ xs ys, (c.readAt id offset m).eval c.answer = .ok xs ∧
        (c.readAt id (offset + m) n).eval c.answer = .ok ys ∧ bytes = xs ++ ys := by
  simp only [eval_readAt_eq_ok]
  cases hsize : c.size id with
  | error e =>
    exact ⟨fun ⟨_, hok, _⟩ => (by cases hok), fun ⟨_, _, ⟨_, hok, _⟩, _⟩ => (by cases hok)⟩
  | ok size =>
    have hwindow : window (c.denotes id) offset (min (size - offset) (m + n)) =
        window (c.denotes id) offset (min (size - offset) m) ++
          window (c.denotes id) (offset + m) (min (size - (offset + m)) n) := by
      by_cases hfull : m ≤ size - offset
      · rw [Nat.min_eq_right hfull, window_append]
        congr 1
        omega
      · rw [show min (size - (offset + m)) n = 0 by omega, Nat.min_eq_left (by omega),
          Nat.min_eq_left (by omega)]
        exact (List.append_nil _).symm
    constructor
    · rintro ⟨_, hok, hbytes⟩
      cases hok
      rw [hwindow, eq_comm, List.map_eq_append_iff] at hbytes
      obtain ⟨xs, ys, hsplit, hxs, hys⟩ := hbytes
      exact ⟨xs, ys, ⟨size, rfl, hxs.symm⟩, ⟨size, rfl, hys.symm⟩, hsplit⟩
    · rintro ⟨xs, ys, ⟨_, hok, hxs⟩, ⟨_, hok', hys⟩, rfl⟩
      cases hok
      cases hok'
      exact ⟨size, rfl, by rw [hwindow, hxs, hys, List.map_append]⟩

variable (c) in
/-- After any history a read returns the bytes that the resource denotes in its range, and fails
exactly when one of them is undefined or the resource has no size; two consecutive reads make up
the large one; and a read of an address from which references lead back to a resource, or to more
than 32 of them, fails. -/
theorem readAt_denotes (lru : Interface) (operations : List Operation) (id : String)
    (offset length : Nat) :
    let read := fun offset length => (c.readAt id offset length).run c.serve
    let s := c.cachesAfter lru operations
    (∀ bytes, (∃ s', read offset length s = .ok bytes s') ↔ ∃ size, c.size id = .ok size ∧
      window (c.denotes id) offset (min (size - offset) length) = bytes.map some) ∧
    ((∃ e s', read offset length s = .error e s') ↔ ∀ size, c.size id = .ok size →
      ∃ i, i < min (size - offset) length ∧ c.denotes id (offset + i) = none) ∧
    (∀ m n bytes, (∃ s', read offset (m + n) s = .ok bytes s') ↔
      ∃ xs ys s₁ s₂, read offset m s = .ok xs s₁ ∧ read (offset + m) n s₁ = .ok ys s₂ ∧
        bytes = xs ++ ys) ∧
    (∀ position trail, c.Follows id position trail → 32 < trail.length ∨ ¬ trail.Nodup →
      offset ≤ position → position < offset + length →
      (∀ size, c.size id = .ok size → position < size) →
      ∃ e s', read offset length s = .error e s') := by
  intro read s
  have hcoherent : c.Coherent lru c.OwnEntry s := coherent_cachesAfter lru operations
  have hread : ∀ offset length, Computes (c.Coherent lru c.OwnEntry) (read offset length)
      ((c.readAt id offset length).eval c.answer) :=
    fun offset length => (serves_answer c.admits_ownEntry).run _
  have herror : ∀ offset length, (∃ e s', read offset length s = .error e s') ↔
      ∀ size, c.size id = .ok size →
        ∃ i, i < min (size - offset) length ∧ c.denotes id (offset + i) = none := by
    intro offset length
    rw [← eval_readAt_error_iff]
    exact exists_congr fun e => (hread offset length).error_iff hcoherent
  refine ⟨fun bytes => ?_, herror offset length, ?_, ?_⟩
  · rw [(hread offset length).ok_iff hcoherent, eval_readAt_eq_ok]
  · intro m n bytes
    rw [(hread offset (m + n)).ok_iff hcoherent, eval_readAt_add]
    constructor
    · rintro ⟨xs, ys, hxs, hys, hbytes⟩
      obtain ⟨s₁, hs₁⟩ := ((hread offset m).ok_iff hcoherent).mpr hxs
      have hcoherent₁ := ((hread offset m).ok hcoherent hs₁).1
      obtain ⟨s₂, hs₂⟩ := ((hread (offset + m) n).ok_iff hcoherent₁).mpr hys
      exact ⟨xs, ys, s₁, s₂, hs₁, hs₂, hbytes⟩
    · rintro ⟨xs, ys, s₁, s₂, hs₁, hs₂, hbytes⟩
      have hfirst := (hread offset m).ok hcoherent hs₁
      have hsecond := (hread (offset + m) n).ok hfirst.1 hs₂
      exact ⟨xs, ys, hfirst.2, hsecond.2, hbytes⟩
  · intro position trail hfollows hbad hge hlt hin
    rw [herror]
    intro size hsize
    have hposition := hin size hsize
    refine ⟨position - offset, by omega, ?_⟩
    rw [Nat.add_sub_cancel' hge]
    cases hbyte : c.denotes id position with
    | none => rfl
    | some byte =>
      obtain ⟨hnodup, -, hlength⟩ := nodup_of_byteAt hfollows hbyte
      rcases hbad with hlong | hrepeat
      · rw [List.length_nil] at hlength
        omega
      · exact absurd hnodup hrepeat

end Container

end EwfImage.Aff4
