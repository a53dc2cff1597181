import EwfImage.Aff4.Linear
import EwfImage.Aff4.Open

/-!
# Sequential traversals deliver what positioned reads deliver

Walking a resource, copying it and reading it from a sequential reader up to its size all
have the bytes that positioned reads have, and fail when they fail, exactly when the resource is
traversed as it is read (`traversals_deliver_positioned_iff`). Where the two resolutions part, the
bytes can be others: a map that is also a ZIP segment is read from its member and walked through its
target (`not_traversals_deliver_positioned`).

The condition `TraversedAsRead` is on the container: at every resource that the traversal comes
to, the way it is resolved is the way a positioned read resolves it, and what both deliver ends
at the declared size. The result holds after every history, with buffers of any lengths and any
listener; both directions are proved, by a denotation of the traversals that names no cache. The
decoders are the `Libraries` of the container.
-/

namespace EwfImage.Aff4

open ByteStore Delivery Fallible LruCache Queries Slice Triples

namespace Container

variable (c : Container)

/-- Reading a reader up to the declared size, with buffers of the given lengths; every turn reads
at least a byte. -/
def readerLoop (reader : SequentialReader) (lengths : Nat → Nat) (size : Nat) :
    Nat → Bytes → c.Reading Bytes
  | 0, done => return done
  | fuel + 1, done =>
    if done.length < size then do
      let bytes ← reader.read c (min (lengths done.length) (size - done.length)) done.length
      refuseIf (bytes = []) (.io "failed to fill whole buffer")
      readerLoop reader lengths size fuel (done ++ bytes)
    else return done

/-- A sequential reader, read up to the declared size. -/
def readDeclared (id : String) (lengths : Nat → Nat) : c.Reading Bytes := do
  let size ← c.size id
  let reader ← c.sequentialReader id
  c.readerLoop reader lengths size size []

/-- Positioned reads up to the declared size. -/
def readPositions (id : String) (lengths : Nat → Nat) : c.Reading Bytes := do
  let size ← c.size id
  c.readerLoop (.positioned id) lengths size size []

/-- What walks and sequential readers do first: they find the member that is decoded once, if the
backing is a ZIP segment. -/
def opening (id : String) (size : Nat) : Result (Option ByteStream) := do
  let _ ← (c.readResource false id 0 0).eval c.answer
  c.openBacking size (c.backing 32 [] id)

variable {c} {id : String} {size : Nat}

theorem eval_sequentialReader (hsize : c.size id = .ok size) :
    (c.sequentialReader id).eval c.answer = (c.opening id size >>= fun opened =>
      .ok (match opened with
        | some contents => .zip contents
        | none => .positioned id)) := by
  unfold sequentialReader opening openBacking
  rw [Program.eval_bind, Program.eval_lift, hsize, ok_bind, Program.eval_bind]
  cases (c.readResource false id 0 0).eval c.answer with
  | error e => rfl
  | ok bytes =>
    rw [ok_bind, ok_bind, Program.eval_bind, eval_linearBacking]
    cases c.backing 32 [] id with
    | error e => rfl
    | ok target =>
      rw [ok_bind, ok_bind, Program.eval_ite]
      by_cases hzip : c.isZipSegment target = true
      · rw [if_pos hzip, if_pos hzip, Program.eval_bind, Program.eval_lift]
        cases c.path target with
        | error e => rfl
        | ok path =>
          rw [ok_bind, ok_bind, Program.eval_bind, Program.eval_lift]
          cases c.archive.byName path with
          | error e => rfl
          | ok found =>
            unfold refuseIf
            rw [ok_bind, ok_bind]
            dsimp only
            rw [Program.eval_bind, Program.eval_lift]
            by_cases hsame : found.1.size ≠ size
            · rw [rejectIf_pos _ hsame]
              rfl
            · rw [rejectIf_neg _ hsame]
              rfl
      · rw [if_neg hzip, if_neg hzip]
        rfl

theorem eval_readDeclared (hsize : c.size id = .ok size) (lengths : Nat → Nat) :
    (c.readDeclared id lengths).eval c.answer = (c.opening id size >>= fun opened =>
      (c.readerLoop (match opened with
        | some contents => .zip contents
        | none => .positioned id) lengths size size []).eval c.answer) := by
  rw [readDeclared, Program.eval_bind, Program.eval_lift, hsize, ok_bind, Program.eval_bind,
    eval_sequentialReader hsize]
  cases c.opening id size <;> rfl

theorem eval_walkBytes (hsize : c.size id = .ok size) :
    (c.walkBytes id).eval (Program.undisturbed c.answer) = (c.opening id size >>= fun opened =>
      match opened with
      | some contents => do
        let pieces ← (c.zipLoop contents id size size 0 []).eval (Program.undisturbed c.answer)
        let more ← contents.hasMore size
        refuseIf more (.malformed "oversized ZIP segment")
        return pieces
      | none => (c.positionedLoop id size size 0 []).eval (Program.undisturbed c.answer)) := by
  unfold walkBytes opening openBacking
  rw [Program.eval_bind, Program.eval_lift, hsize, ok_bind, Program.eval_bind, progress,
    Program.eval_signal, ok_bind, Program.eval_bind, Program.eval_monadLift_quiet]
  cases (c.readResource false id 0 0).eval c.answer with
  | error e => rfl
  | ok bytes =>
    rw [ok_bind, ok_bind, Program.eval_bind, Program.eval_monadLift_quiet, eval_linearBacking]
    cases c.backing 32 [] id with
    | error e => rfl
    | ok target =>
      rw [ok_bind, ok_bind, Program.eval_ite]
      by_cases hzip : c.isZipSegment target = true
      · rw [if_pos hzip, if_pos hzip, Program.eval_bind, Program.eval_lift]
        cases c.path target with
        | error e => rfl
        | ok path =>
          rw [ok_bind, ok_bind, Program.eval_bind, Program.eval_lift]
          cases c.archive.byName path with
          | error e => rfl
          | ok found =>
            unfold refuseIf
            rw [ok_bind, ok_bind]
            dsimp only
            rw [Program.eval_bind, Program.eval_lift]
            by_cases hsame : found.1.size ≠ size
            · rw [rejectIf_pos _ hsame]
              rfl
            · rw [rejectIf_neg _ hsame, ok_bind, ok_bind, Program.eval_bind]
              congr 1
              funext pieces
              rw [Program.eval_bind, Program.eval_lift]
              congr 1
              funext more
              rw [Program.eval_bind, Program.eval_lift]
              rfl
      · rw [if_neg hzip, if_neg hzip]
        rfl

/-! ## What is opened -/

theorem denotes_eq_none_of_not_opens (h : ¬ c.Opens 32 [] id) (position : Nat) :
    c.denotes id position = none := by
  cases hbyte : c.denotes id position with
  | none => rfl
  | some byte => exact absurd (opens_of_byteAt hbyte) h

/-- What is opened agrees with the bytes of a resource exactly when it is traversed as it is
read. -/
theorem agrees_opening_iff (hsize : c.size id = .ok size) :
    Agrees (c.denotes id) size (c.opening id size) ↔ c.TraversedAsRead id size := by
  unfold opening
  cases hzero : (c.readResource false id 0 0).eval c.answer with
  | error e =>
    have hclosed : ¬ c.Opens 32 [] id := by
      rintro ⟨bytes, hbytes⟩
      change (c.readResource false id 0 0).eval c.answer = _ at hbytes
      rw [hzero] at hbytes
      cases hbytes
    constructor
    · rintro ⟨i, hi, -⟩
      exact ⟨fun hempty => by omega, fun hopens => absurd hopens hclosed⟩
    · intro h
      refine ⟨0, ?_, denotes_eq_none_of_not_opens hclosed 0⟩
      by_contra hnone
      exact hclosed (h.opens (by omega))
  | ok bytes =>
    have hopens : c.Opens 32 [] id := ⟨bytes, hzero⟩
    rw [ok_bind]
    have hiff : c.Straight size 32 false [] id ↔ _ :=
      straight_iff hsize (fun _ => hopens) fun hfalse => by cases hfalse
    exact hiff.symm.trans
      ⟨fun hway => ⟨fun _ => hopens, fun _ => hway⟩, fun h => h.way hopens⟩

/-! ## Loops -/

theorem length_readExact {stream : ByteStream} {offset length : Nat} {bytes : Bytes}
    (h : stream.readExact offset length = .ok bytes) : bytes.length = length := by
  unfold ByteStream.readExact at h
  by_cases hfits : length ≤ (stream.output.drop offset).length
  · rw [if_pos hfits] at h
    cases h
    rw [List.length_drop] at hfits
    rw [length_slice]
    omega
  · rw [if_neg hfits] at h
    cases hfailure : stream.failure with
    | none =>
      rw [hfailure] at h
      cases h
    | some e =>
      rw [hfailure] at h
      cases h

theorem eval_zipLoop (contents : ByteStream) (fuel : Nat) (pieces : List Bytes) :
    ((c.zipLoop contents id size fuel pieces.flatten.length pieces).eval
        (Program.undisturbed c.answer) >>= fun pieces => .ok pieces.flatten) =
      pieceLoop (fun start => contents.readExact start (min (size - start) walkBufferBytes)) size
        fuel pieces.flatten := by
  induction fuel generalizing pieces with
  | zero => rfl
  | succ fuel ih =>
    rw [zipLoop, pieceLoop, Program.eval_ite]
    by_cases hmore : pieces.flatten.length < size
    · rw [if_pos hmore, if_pos hmore, Program.eval_bind, Program.eval_lift]
      cases hread : contents.readExact pieces.flatten.length
          (min (size - pieces.flatten.length) walkBufferBytes) with
      | error e => rfl
      | ok bytes =>
        have hlength := length_readExact hread
        have hrest := ih (pieces ++ [bytes])
        rw [List.flatten_append, List.length_append, List.flatten_singleton, hlength] at hrest
        rw [ok_bind, ok_bind, Program.eval_bind, progress, Program.eval_signal, ok_bind]
        exact hrest
    · rw [if_neg hmore, if_neg hmore]
      rfl

theorem eval_positionedLoop (fuel : Nat) (pieces : List Bytes) :
    ((c.positionedLoop id size fuel pieces.flatten.length pieces).eval
        (Program.undisturbed c.answer) >>= fun pieces => .ok pieces.flatten) =
      pieceLoop (fun start => (c.readAtUncached id start walkBufferBytes).eval c.answer >>=
        fun bytes => refuseIf (bytes = []) (.malformed "truncated stream") >>= fun _ =>
        .ok bytes) size fuel pieces.flatten := by
  induction fuel generalizing pieces with
  | zero => rfl
  | succ fuel ih =>
    rw [positionedLoop, pieceLoop, Program.eval_ite]
    by_cases hmore : pieces.flatten.length < size
    · rw [if_pos hmore, if_pos hmore, Program.eval_bind, Program.eval_monadLift_quiet]
      cases hread : (c.readAtUncached id pieces.flatten.length walkBufferBytes).eval c.answer with
      | error e => rfl
      | ok bytes =>
        have hrest := ih (pieces ++ [bytes])
        rw [List.flatten_append, List.length_append, List.flatten_singleton] at hrest
        unfold refuseIf
        rw [ok_bind, ok_bind, Program.eval_bind, Program.eval_lift]
        by_cases hnil : bytes = []
        · rw [rejectIf_pos _ hnil]
          rfl
        · rw [rejectIf_neg _ hnil, ok_bind, ok_bind, ok_bind, Program.eval_bind, progress,
            Program.eval_signal, ok_bind]
          exact hrest
    · rw [if_neg hmore, if_neg hmore]
      rfl

theorem eval_readerLoop (reader : SequentialReader) (lengths : Nat → Nat) (fuel : Nat)
    (done : Bytes) :
    (c.readerLoop reader lengths size fuel done).eval c.answer =
      pieceLoop (fun start =>
        (reader.read c (min (lengths start) (size - start)) start).eval c.answer >>= fun bytes =>
        refuseIf (bytes = []) (.io "failed to fill whole buffer") >>= fun _ => .ok bytes)
        size fuel done := by
  induction fuel generalizing done with
  | zero => rfl
  | succ fuel ih =>
    rw [readerLoop, pieceLoop, Program.eval_ite]
    by_cases hmore : done.length < size
    · rw [if_pos hmore, if_pos hmore, Program.eval_bind]
      cases (reader.read c (min (lengths done.length) (size - done.length))
          done.length).eval c.answer with
      | error e => rfl
      | ok bytes =>
        unfold refuseIf
        rw [ok_bind, ok_bind, Program.eval_bind, Program.eval_lift]
        by_cases hnil : bytes = []
        · rw [rejectIf_pos _ hnil]
          rfl
        · rw [rejectIf_neg _ hnil, ok_bind, ok_bind, ok_bind]
          exact ih _
    · rw [if_neg hmore, if_neg hmore]
      rfl

/-! ## Deliveries -/

section Deliveries

variable {lengths : Nat → Nat}

/-- Positioned reads that each return a byte deliver the resource. -/
theorem delivers_positioned (useDecodedCache : Bool) (e : Error) (lengths : Nat → Nat)
    (hsize : c.size id = .ok size) (hlengths : ∀ start, start < size → 0 < lengths start) :
    Delivers (c.denotes id) 0 size (pieceLoop (fun start =>
      (c.readAtImpl useDecodedCache id start (lengths start)).eval c.answer >>= fun bytes =>
        refuseIf (bytes = []) e >>= fun _ => .ok bytes) size size []) := by
  refine delivers_pieceLoop (fun start hstart => ?_) rfl (Nat.zero_le _) (by simp)
  have hpos := hlengths start hstart
  refine ⟨min (size - start) (lengths start), by omega, by omega, ?_⟩
  rw [Nat.zero_add]
  exact (delivers_readAtImpl useDecodedCache hsize).nonempty (by omega) e

theorem delivers_readPositions (hlengths : ∀ start, 0 < lengths start)
    (hsize : c.size id = .ok size) :
    Delivers (c.denotes id) 0 size ((c.readPositions id lengths).eval c.answer) := by
  rw [readPositions, Program.eval_bind, Program.eval_lift, hsize, ok_bind, eval_readerLoop]
  refine delivers_positioned true _ (fun start => min (lengths start) (size - start)) hsize
    fun start hstart => ?_
  have hpos := hlengths start
  omega

theorem delivers_zipLoop (size : Nat) (contents : ByteStream) :
    Delivers (fun position => contents.output[position]?) 0 size (pieceLoop
      (fun start => contents.readExact start (min (size - start) walkBufferBytes)) size size []) := by
  refine delivers_pieceLoop (fun start hstart => ?_) rfl (Nat.zero_le _) (by simp)
  have hbuffer : 0 < walkBufferBytes := by decide
  refine ⟨min (size - start) walkBufferBytes, by omega, by omega, ?_⟩
  rw [Nat.zero_add]
  exact delivers_readExact contents (by omega)

/-- The walk of a member: its bytes, and the check that it ends. -/
theorem eval_zipWalk (contents : ByteStream) :
    (((c.zipLoop contents id size size 0 []).eval (Program.undisturbed c.answer) >>= fun pieces =>
        contents.hasMore size >>= fun more =>
        refuseIf more (.malformed "oversized ZIP segment") >>= fun _ => .ok pieces) >>=
      fun pieces => .ok pieces.flatten) =
    (pieceLoop (fun start => contents.readExact start (min (size - start) walkBufferBytes)) size
        size [] >>= fun bytes => contents.hasMore size >>= fun more =>
        refuseIf more (.malformed "oversized ZIP segment") >>= fun _ => .ok bytes) := by
  have hloop : ((c.zipLoop contents id size size 0 []).eval (Program.undisturbed c.answer) >>=
      fun pieces => .ok pieces.flatten) = pieceLoop (fun start => contents.readExact start
        (min (size - start) walkBufferBytes)) size size [] := eval_zipLoop contents size []
  cases hrun : (c.zipLoop contents id size size 0 []).eval (Program.undisturbed c.answer) with
  | error e =>
    rw [hrun] at hloop
    rw [← hloop]
    rfl
  | ok pieces =>
    rw [hrun, ok_bind] at hloop
    rw [← hloop, ok_bind, ok_bind]
    cases contents.hasMore size with
    | error e => rfl
    | ok more => cases more <;> rfl

/-- A walk delivers the resource. -/
theorem delivers_walkBytes (h : Agrees (c.denotes id) size (c.opening id size))
    (hsize : c.size id = .ok size) :
    Delivers (c.denotes id) 0 size ((c.walkBytes id).eval (Program.undisturbed c.answer) >>=
      fun pieces => .ok pieces.flatten) := by
  rw [eval_walkBytes hsize]
  cases hopened : c.opening id size with
  | error e =>
    rw [hopened] at h
    obtain ⟨i, hi, hnone⟩ := h
    exact delivers_error hi (by rw [Nat.zero_add, hnone])
  | ok opened =>
    rw [hopened] at h
    rw [ok_bind]
    cases opened with
    | none =>
      refine (congrArg (Delivers (c.denotes id) 0 size) (eval_positionedLoop size [])).mpr ?_
      exact delivers_positioned false _ (fun _ => walkBufferBytes) hsize fun _ _ => by decide
    | some contents =>
      refine (congrArg (Delivers (c.denotes id) 0 size) (eval_zipWalk contents)).mpr ?_
      have hloop := delivers_zipLoop size contents
      simp only [Agrees] at h
      by_cases hlong : size ≤ contents.output.length
      · rw [if_pos hlong] at h
        obtain ⟨hends, hbytes⟩ := h
        have hdelivers := hloop.congr fun i hi => (hbytes (0 + i) (by omega)).symm
        cases hread : pieceLoop (fun start => contents.readExact start
            (min (size - start) walkBufferBytes)) size size [] with
        | error e =>
          rw [hread] at hdelivers
          exact hdelivers
        | ok bytes =>
          rw [hread] at hdelivers
          rw [ok_bind, hends]
          exact hdelivers
      · rw [if_neg hlong] at h
        obtain ⟨i, hi, hnone⟩ := h
        obtain ⟨e, hread⟩ := hloop.error_iff.mpr ⟨contents.output.length, by omega,
          List.getElem?_eq_none (by omega)⟩
        rw [hread]
        exact delivers_error hi (by rw [Nat.zero_add, hnone])

/-- A sequential reader of a member delivers its bytes. -/
theorem delivers_zipReader (hlengths : ∀ start, 0 < lengths start) (contents : ByteStream) :
    Delivers (fun position => contents.output[position]?) 0 size
      ((c.readerLoop (.zip contents) lengths size size []).eval c.answer) := by
  rw [eval_readerLoop]
  refine delivers_pieceLoop (fun start hstart => ?_) rfl (Nat.zero_le _) (by simp)
  have hpos := hlengths start
  rw [Nat.zero_add]
  by_cases hmore : start < contents.output.length
  · have hread : (SequentialReader.read c (min (lengths start) (size - start)) start
        (.zip contents)).eval c.answer =
          .ok (slice contents.output start (min (lengths start) (size - start))) := by
      unfold SequentialReader.read ByteStream.hasMore
      rw [Program.eval_bind, Program.eval_lift, if_pos hmore]
      rfl
    refine ⟨min (min (lengths start) (size - start)) (contents.output.length - start), by omega,
      by omega, ?_⟩
    rw [hread]
    refine Delivers.nonempty ?_ (by omega) _
    have hslice : slice contents.output start (min (lengths start) (size - start)) =
        slice contents.output start
          (min (min (lengths start) (size - start)) (contents.output.length - start)) := by
      unfold slice
      rw [List.take_eq_take_iff, List.length_drop]
      omega
    rw [hslice]
    exact delivers_slice (by omega) fun i _ => rfl
  · have hnone : contents.output[start + 0]? = none := by
      rw [List.getElem?_eq_none_iff]
      omega
    refine ⟨1, Nat.one_pos, by omega, ?_⟩
    unfold SequentialReader.read ByteStream.hasMore
    rw [Program.eval_bind, Program.eval_lift, if_neg hmore]
    cases contents.failure with
    | some e => exact delivers_error Nat.one_pos hnone
    | none => exact delivers_error Nat.one_pos hnone

/-- A sequential reader delivers the resource up to the declared size. -/
theorem delivers_readDeclared (h : Agrees (c.denotes id) size (c.opening id size))
    (hsize : c.size id = .ok size) (hlengths : ∀ start, 0 < lengths start) :
    Delivers (c.denotes id) 0 size ((c.readDeclared id lengths).eval c.answer) := by
  rw [eval_readDeclared hsize]
  cases hopened : c.opening id size with
  | error e =>
    rw [hopened] at h
    obtain ⟨i, hi, hnone⟩ := h
    exact delivers_error hi (by rw [Nat.zero_add, hnone])
  | ok opened =>
    rw [hopened] at h
    rw [ok_bind]
    cases opened with
    | none =>
      have hpositions := delivers_readPositions hlengths hsize
      rw [readPositions, Program.eval_bind, Program.eval_lift, hsize] at hpositions
      exact hpositions
    | some contents =>
      have hreader : Delivers (fun position => contents.output[position]?) 0 size
          ((c.readerLoop (.zip contents) lengths size size []).eval c.answer) :=
        delivers_zipReader hlengths contents
      simp only [Agrees] at h
      by_cases hlong : size ≤ contents.output.length
      · rw [if_pos hlong] at h
        exact hreader.congr fun i hi => (h.2 (0 + i) (by omega)).symm
      · rw [if_neg hlong] at h
        obtain ⟨i, hi, hnone⟩ := h
        obtain ⟨e, hread⟩ := hreader.error_iff.mpr ⟨contents.output.length, by omega,
          List.getElem?_eq_none (by omega)⟩
        change Delivers (c.denotes id) 0 size
          ((c.readerLoop (.zip contents) lengths size size []).eval c.answer)
        rw [hread]
        exact delivers_error hi (by rw [Nat.zero_add, hnone])

/-- If a sequential reader and a walk deliver the resource, what they open agrees with it. -/
theorem agrees_of_delivers (hsize : c.size id = .ok size) (hlengths : ∀ start, 0 < lengths start)
    (hdeclared : Delivers (c.denotes id) 0 size ((c.readDeclared id lengths).eval c.answer))
    (hwalk : Delivers (c.denotes id) 0 size
      ((c.walkBytes id).eval (Program.undisturbed c.answer) >>= fun pieces => .ok pieces.flatten)) :
    Agrees (c.denotes id) size (c.opening id size) := by
  rw [eval_readDeclared hsize] at hdeclared
  rw [eval_walkBytes hsize] at hwalk
  cases hopened : c.opening id size with
  | error e =>
    rw [hopened] at hdeclared
    obtain ⟨i, hi, hnone⟩ := hdeclared.error_iff.mp ⟨e, rfl⟩
    exact ⟨i, hi, by rw [← hnone, Nat.zero_add]⟩
  | ok opened =>
    rw [hopened, ok_bind] at hdeclared hwalk
    cases opened with
    | none => trivial
    | some contents =>
      have hreader : Delivers (fun position => contents.output[position]?) 0 size
          ((c.readerLoop (.zip contents) lengths size size []).eval c.answer) :=
        delivers_zipReader hlengths contents
      simp only [Agrees]
      by_cases hlong : size ≤ contents.output.length
      · rw [if_pos hlong]
        cases hread : (c.readerLoop (.zip contents) lengths size size []).eval c.answer with
        | error e =>
          obtain ⟨i, hi, hnone⟩ := hreader.error_iff.mp ⟨e, hread⟩
          rw [List.getElem?_eq_none_iff] at hnone
          omega
        | ok bytes =>
          change Delivers (c.denotes id) 0 size
            ((c.readerLoop (.zip contents) lengths size size []).eval c.answer) at hdeclared
          rw [hread] at hdeclared hreader
          have hbytes : ∀ i, i < size → c.denotes id i = contents.output[i]? := fun i hi => by
            have hfound := hdeclared.getElem? hi
            have hstored := hreader.getElem? hi
            rw [Nat.zero_add] at hfound hstored
            rw [hfound, hstored]
          refine ⟨?_, hbytes⟩
          -- the walk succeeds as well, so it found the end of the member
          have hsucceeds := (eval_zipWalk contents).symm.trans
            ((hwalk bytes).mpr ((hdeclared bytes).mp rfl))
          rw [bind_eq_ok] at hsucceeds
          obtain ⟨_, -, hsucceeds⟩ := hsucceeds
          rw [bind_eq_ok] at hsucceeds
          obtain ⟨more, hmore, hsucceeds⟩ := hsucceeds
          cases more with
          | true => cases hsucceeds
          | false => exact hmore
      · rw [if_neg hlong]
        obtain ⟨e, hread⟩ := hreader.error_iff.mpr ⟨contents.output.length, by omega,
          List.getElem?_eq_none (by omega)⟩
        obtain ⟨i, hi, hnone⟩ := hdeclared.error_iff.mp ⟨e, hread⟩
        exact ⟨i, hi, by rw [← hnone, Nat.zero_add]⟩

end Deliveries

/-! ## Listeners that stop a traversal -/

theorem stops_lift {α : Type} (r : Result α) : Program.Stops .aborted (liftM r : c.Walking α) :=
  Program.stops_done r

theorem stops_reading {α : Type} (p : c.Reading α) :
    Program.Stops .aborted (liftM p : c.Walking α) := Program.stops_quiet p

theorem stops_zipLoop (contents : ByteStream) (fuel offset : Nat) (pieces : List Bytes) :
    Program.Stops .aborted (c.zipLoop contents id size fuel offset pieces) := by
  induction fuel generalizing offset pieces with
  | zero => exact Program.stops_pure _
  | succ fuel ih =>
    refine Program.stops_ite (fun _ => ?_) fun _ => Program.stops_pure _
    refine (stops_lift _).bind fun bytes => ?_
    exact (Program.stops_signal _).bind fun _ => ih _ _

theorem stops_positionedLoop (fuel offset : Nat) (pieces : List Bytes) :
    Program.Stops .aborted (c.positionedLoop id size fuel offset pieces) := by
  induction fuel generalizing offset pieces with
  | zero => exact Program.stops_pure _
  | succ fuel ih =>
    refine Program.stops_ite (fun _ => ?_) fun _ => Program.stops_pure _
    refine (stops_reading _).bind fun bytes => (stops_lift _).bind fun _ => ?_
    exact (Program.stops_signal _).bind fun _ => ih _ _

/-- A walk that is stopped ends as aborted. -/
theorem stops_walkBytes : Program.Stops .aborted (c.walkBytes id) := by
  refine (stops_lift _).bind fun size => (Program.stops_signal _).bind fun _ => ?_
  refine (stops_reading _).bind fun _ => (stops_reading _).bind fun target => ?_
  refine Program.stops_ite (fun _ => ?_) fun _ => stops_positionedLoop _ _ _
  refine (stops_lift _).bind fun path => (stops_lift _).bind fun found => ?_
  refine (stops_lift _).bind fun _ => (stops_zipLoop _ _ _ _).bind fun pieces => ?_
  exact (stops_lift _).bind fun more => (stops_lift _).bind fun _ => Program.stops_pure _

theorem stops_copyVerifiedImpl (blockSize : Option Nat) :
    Program.Stops .aborted (c.copyVerifiedImpl blockSize id) := by
  refine (stops_lift _).bind fun size => (stops_lift _).bind fun _ => ?_
  refine (stops_reading _).bind fun _ => (stops_reading _).bind fun _ => ?_
  exact stops_walkBytes.bind fun pieces => (stops_lift _).bind fun _ => Program.stops_pure _

/-! ## Traversals after a history -/

/-- What a copy returns: the digests of the bytes of a walk, compared with the references. -/
theorem eval_copyVerifiedImpl_eq_ok {blockSize : Option Nat} {verification : Verification}
    {blocks : Option PairedBlockDigests} {pieces : List Bytes}
    (h : (c.copyVerifiedImpl blockSize id).eval (Program.undisturbed c.answer) =
      .ok (verification, blocks, pieces)) :
    (c.walkBytes id).eval (Program.undisturbed c.answer) = .ok pieces ∧
      blocks = blockSize.map (PairedBlockHasher.run c.libraries · pieces) ∧
      ∃ size, c.size id = .ok size ∧
        c.withLinearReferences id (c.digests size pieces.flatten) = .ok verification := by
  rw [copyVerifiedImpl, Program.eval_bind, Program.eval_lift, bind_eq_ok] at h
  obtain ⟨size, hsize, h⟩ := h
  rw [Program.eval_bind, Program.eval_lift, bind_eq_ok] at h
  obtain ⟨_, -, h⟩ := h
  rw [Program.eval_bind, bind_eq_ok] at h
  obtain ⟨_, -, h⟩ := h
  rw [Program.eval_bind, bind_eq_ok] at h
  obtain ⟨_, -, h⟩ := h
  rw [Program.eval_bind, bind_eq_ok] at h
  obtain ⟨walked, hwalk, h⟩ := h
  rw [Program.eval_bind, Program.eval_lift, bind_eq_ok] at h
  obtain ⟨result, hresult, h⟩ := h
  cases h
  exact ⟨hwalk, rfl, size, hsize, hresult⟩

/-- Positioned reads up to the declared size deliver the bytes, after the operations. -/
def DeliversAfter (c : Container) (lru : Interface) (operations : List Operation) (id : String)
    (lengths : Nat → Nat) (bytes : Bytes) : Prop :=
  ∃ s', (c.readPositions id lengths).run c.serve (c.cachesAfter lru operations) = .ok bytes s'

/-- After the operations, a sequential reader up to the declared size and a walk deliver a resource
exactly when positioned reads do, with the same bytes; and a copy or a verification, whoever listens,
has digested these bytes. -/
structure DeliversPositioned (c : Container) (lru : Interface) (operations : List Operation)
    (id : String) (lengths lengths' : Nat → Nat) : Prop where
  declared : ∀ bytes,
    (∃ s', (c.readDeclared id lengths).run c.serve (c.cachesAfter lru operations) = .ok bytes s') ↔
      c.DeliversAfter lru operations id lengths' bytes
  walked : ∀ bytes, (∃ pieces s', (c.walkBytes id).run
      (Program.listen c.serve (hear fun _ _ => false)) (c.cachesAfter lru operations, []) =
        .ok pieces s' ∧ pieces.flatten = bytes) ↔ c.DeliversAfter lru operations id lengths' bytes
  copied : ∀ listener blockSize verification blocks pieces s',
    (c.copyVerifiedImpl blockSize id).run (Program.listen c.serve (hear listener))
        (c.cachesAfter lru operations, []) = .ok (verification, blocks, pieces) s' →
      c.DeliversAfter lru operations id lengths' pieces.flatten ∧
        blocks = blockSize.map (PairedBlockHasher.run c.libraries · pieces) ∧
        ∃ size, c.size id = .ok size ∧
          c.withLinearReferences id (c.digests size pieces.flatten) = .ok verification

section Histories

variable {lru : Interface} {operations : List Operation} {lengths lengths' : Nat → Nat}

/-- The history does not matter for positioned reads. -/
theorem deliversAfter_iff {bytes : Bytes} : c.DeliversAfter lru operations id lengths bytes ↔
    (c.readPositions id lengths).eval c.answer = .ok bytes :=
  ((serves_answer c.admits_ownEntry).run _).ok_iff (coherent_cachesAfter lru operations)

/-- Nor does it for a sequential reader. -/
theorem readDeclared_iff {bytes : Bytes} :
    (∃ s', (c.readDeclared id lengths).run c.serve (c.cachesAfter lru operations) = .ok bytes s') ↔
      (c.readDeclared id lengths).eval c.answer = .ok bytes :=
  ((serves_answer c.admits_ownEntry).run _).ok_iff (coherent_cachesAfter lru operations)

/-- Nor for a walk. -/
theorem walkBytes_iff {bytes : Bytes} : (∃ pieces s', (c.walkBytes id).run
      (Program.listen c.serve (hear fun _ _ => false)) (c.cachesAfter lru operations, []) =
        .ok pieces s' ∧ pieces.flatten = bytes) ↔
    ((c.walkBytes id).eval (Program.undisturbed c.answer) >>= fun pieces =>
      .ok pieces.flatten) = .ok bytes := by
  have hcoherent := coherent_cachesAfter (c := c) lru operations
  have hserves : Serves (c.Coherent lru c.OwnEntry) c.serve c.answer :=
    serves_answer c.admits_ownEntry
  have hquiet := (hserves.listen_silent (hear fun _ _ => false) fun _ _ => rfl).run
    (c.walkBytes id)
  rw [bind_eq_ok]
  constructor
  · rintro ⟨pieces, s', hrun, hpieces⟩
    exact ⟨pieces, (hquiet.ok (s := (_, [])) hcoherent hrun).2, congrArg Except.ok hpieces⟩
  · rintro ⟨pieces, hrun, hpieces⟩
    obtain ⟨s', hs'⟩ := (hquiet.ok_iff (s := (_, [])) hcoherent).mpr hrun
    exact ⟨pieces, s', hs', Except.ok.inj hpieces⟩

/-- A resource without a size is not delivered at all. -/
theorem eval_eq_error_of_size {e : Error} (hsize : c.size id = .error e) (lengths : Nat → Nat) :
    (c.readPositions id lengths).eval c.answer = .error e ∧
      (c.readDeclared id lengths).eval c.answer = .error e ∧
      (c.walkBytes id).eval (Program.undisturbed c.answer) = .error e := by
  rw [readPositions, readDeclared, walkBytes, Program.eval_bind, Program.eval_bind,
    Program.eval_bind, Program.eval_lift, Program.eval_lift, hsize]
  exact ⟨rfl, rfl, rfl⟩

/-- Where the traversals deliver what positioned reads deliver, they open what agrees with it. -/
theorem agrees_of_deliversPositioned {size : Nat} (hsize : c.size id = .ok size)
    (hlengths : ∀ start, 0 < lengths start) (hlengths' : ∀ start, 0 < lengths' start)
    (h : c.DeliversPositioned lru operations id lengths lengths') :
    Agrees (c.denotes id) size (c.opening id size) := by
  have hpositions := delivers_readPositions hlengths' hsize
  refine agrees_of_delivers hsize hlengths (fun bytes => ?_) fun bytes => ?_
  · rw [← hpositions bytes, ← readDeclared_iff, h.declared bytes, deliversAfter_iff]
  · rw [← hpositions bytes, ← walkBytes_iff, h.walked bytes, deliversAfter_iff]

/-- Conversely, what agrees with the resource is delivered. -/
theorem deliversPositioned_of_agrees (hlengths : ∀ start, 0 < lengths start)
    (hlengths' : ∀ start, 0 < lengths' start)
    (h : ∀ size, c.size id = .ok size → Agrees (c.denotes id) size (c.opening id size)) :
    c.DeliversPositioned lru operations id lengths lengths' := by
  have hwalked : ∀ bytes, ((c.walkBytes id).eval (Program.undisturbed c.answer) >>= fun pieces =>
      .ok pieces.flatten) = .ok bytes ↔ c.DeliversAfter lru operations id lengths' bytes := by
    intro bytes
    rw [deliversAfter_iff]
    cases hsize : c.size id with
    | error e =>
      obtain ⟨hpositions, -, hwalk⟩ := eval_eq_error_of_size hsize lengths'
      rw [hpositions, hwalk]
      rfl
    | ok size =>
      rw [delivers_readPositions hlengths' hsize bytes]
      exact delivers_walkBytes (h size hsize) hsize bytes
  refine ⟨fun bytes => ?_, fun bytes => walkBytes_iff.trans (hwalked bytes), ?_⟩
  · rw [readDeclared_iff, deliversAfter_iff]
    cases hsize : c.size id with
    | error e =>
      rw [(eval_eq_error_of_size hsize lengths').1, (eval_eq_error_of_size hsize lengths).2.1]
    | ok size =>
      rw [delivers_readDeclared (h size hsize) hsize hlengths bytes,
        delivers_readPositions hlengths' hsize bytes]
  · intro listener blockSize verification blocks pieces s' hrun
    have hcopied := (((serves_answer c.admits_ownEntry).listen (hear listener)
      (stops_copyVerifiedImpl blockSize)).ok (s := (_, []))
      (coherent_cachesAfter lru operations) hrun).2
    obtain ⟨hwalk, hblocks, hresult⟩ := eval_copyVerifiedImpl_eq_ok hcopied
    refine ⟨(hwalked _).mp ?_, hblocks, hresult⟩
    rw [hwalk]
    rfl

end Histories

/-- After every history, and with buffers of any lengths, the traversals of a resource deliver what
positioned reads deliver exactly when the resource is traversed as it is read. -/
theorem traversals_deliver_positioned_iff (lru : Interface) (c : Container) (id : String) :
    (∀ (operations : List Operation) (lengths lengths' : Nat → Nat), (∀ start, 0 < lengths start) →
      (∀ start, 0 < lengths' start) → c.DeliversPositioned lru operations id lengths lengths') ↔
      ∀ size, c.size id = .ok size → c.TraversedAsRead id size := by
  constructor
  · intro h size hsize
    have hone : ∀ start : Nat, 0 < (fun _ => 1) start := fun _ => Nat.one_pos
    exact (agrees_opening_iff hsize).mp
      (agrees_of_deliversPositioned hsize hone hone (h [] _ _ hone hone))
  · intro h operations lengths lengths' hlengths hlengths'
    exact deliversPositioned_of_agrees hlengths hlengths' fun size hsize =>
      (agrees_opening_iff hsize).mpr (h size hsize)

/-! ## A resource that is a map and a ZIP segment -/

section Conflicting

/-- The document of a container with a map that is also a ZIP segment. -/
def conflictingDocument : String :=
  "@prefix aff4: <http://aff4.org/Schema#> .\n" ++
    "<aff4://v/x> a aff4:Map, aff4:ZipSegment ; aff4:size 1 .\n" ++
    "<aff4://v/y> a aff4:ZipSegment ; aff4:size 1 .\n"

def conflictingLibraries : Libraries :=
  .plain (fun _ => [97, 86, 173, 24, 37, 33, 14, 180, 43, 30, 63, 234, 177, 213, 27, 86, 229, 58,
      40, 199, 81, 32, 78, 56, 212, 40, 89, 230, 123, 51, 181, 203])
    [.typed "aff4://v/x" "Map", .typed "aff4://v/x" "ZipSegment", .sized "aff4://v/x" "1",
      .typed "aff4://v/y" "ZipSegment", .sized "aff4://v/y" "1"]

/-- The map takes its byte from the other segment. -/
def conflictingArchive : ZipArchive :=
  .plain conflictingDocument [("x", [1]), ("y", [2]),
    ("x/map", [0, 0, 0, 0, 0, 0, 0, 0, 1, 0, 0, 0, 0, 0, 0, 0, 0, 0, 0, 0, 0, 0, 0, 0, 0, 0, 0, 0]),
    ("x/idx", utf8Bytes "aff4://v/y\n")]

/-- What is asked of the container below. -/
def ConflictingFacts (c : Container) : Prop :=
  c.size "aff4://v/x" = .ok 1 ∧
  (c.readAt "aff4://v/x" 0 1).eval c.answer = .ok [1] ∧
  (c.walkBytes "aff4://v/x").eval (Program.undisturbed c.answer) = .ok [[2]] ∧
  (c.readDeclared "aff4://v/x" fun _ => 1).eval c.answer = .ok [2] ∧
  c.size "aff4://v/y" = .ok 1 ∧
  c.linearNext "aff4://v/y" = .ok none ∧
  c.inlineData "aff4://v/y" = .ok none ∧
  (do
    let path ← c.path "aff4://v/y"
    let (_, contents) ← c.archive.byName path
    contents.hasMore 1) = .ok false

instance (c : Container) : Decidable (ConflictingFacts c) := inferInstanceAs (Decidable (_ ∧ _))

theorem exists_conflicting : ∃ c,
    openContainer conflictingLibraries conflictingArchive [] .unrestricted = .ok c ∧
      ConflictingFacts c := by
  have hopens : (openContainer conflictingLibraries conflictingArchive [] .unrestricted).toOption.any
      (fun c => decide (ConflictingFacts c)) = true := by decide +kernel
  obtain ⟨c, hc, hfacts⟩ := (Option.any_eq_true ..).mp hopens
  exact ⟨c, toOption_eq_some.mp hc, of_decide_eq_true hfacts⟩

/-- A positioned read finds the member of the segment, and a walk the target of the map. -/
theorem not_traversals_deliver_positioned : ∃ c,
    openContainer conflictingLibraries conflictingArchive [] .unrestricted = .ok c ∧
      c.size "aff4://v/x" = .ok 1 ∧
      (∃ s, (c.readAt "aff4://v/x" 0 1).run c.serve ({} : Caches byRecency) = .ok [1] s) ∧
      (∃ s, (c.walkBytes "aff4://v/x").run (Program.listen c.serve (hear fun _ _ => false))
        (({} : Caches byRecency), []) = .ok [[2]] s) ∧
      ∃ s, (c.readDeclared "aff4://v/x" fun _ => 1).run c.serve ({} : Caches byRecency) =
        .ok [2] s := by
  obtain ⟨c, hc, hsize, hread, hwalk, hdeclared, -⟩ := exists_conflicting
  have hserves : Serves (c.Coherent byRecency c.OwnEntry) c.serve c.answer :=
    serves_answer c.admits_ownEntry
  have hnew : c.Coherent byRecency c.OwnEntry {} := coherent_new c byRecency _
  have hquiet := hserves.listen_silent (hear fun _ _ => false) fun _ _ => rfl
  exact ⟨c, hc, hsize, ((hserves.run _).ok_iff hnew).mpr hread,
    ((hquiet.run _).ok_iff (s := ({}, [])) hnew).mpr hwalk,
    ((hserves.run _).ok_iff hnew).mpr hdeclared⟩

/-- The other segment is traversed as it is read. -/
theorem traversals_deliver_positioned_segment : ∃ c,
    openContainer conflictingLibraries conflictingArchive [] .unrestricted = .ok c ∧
      c.DeliversPositioned byRecency [.readAt "aff4://v/x" 0 1] "aff4://v/y" (fun _ => 1)
        (fun _ => 2) := by
  obtain ⟨c, hc, -, -, -, -, hsize, hnext, hinline, hends⟩ := exists_conflicting
  have htraversed : ∀ size, c.size "aff4://v/y" = .ok size → c.TraversedAsRead "aff4://v/y" size := by
    intro size hsize'
    rw [hsize] at hsize'
    cases hsize'
    have hresolved : c.ResolvedAsRead 1 false "aff4://v/y" := by
      refine ⟨by decide, fun _ _ => hnext, fun _ data => ?_, ?_, fun hfalse => by cases hfalse⟩
      · rw [hinline]
        simp
      · intro _ _ path file contents hpath hname _ _
        rw [hpath, ok_bind, hname] at hends
        exact hends
    refine ⟨fun hzero => (by cases hzero),
      fun _ visited' _ => ⟨fun _ next hsome => ?_, fun hnot => ?_⟩⟩
    · rw [hnext] at hsome
      cases hsome
    · exact absurd hresolved hnot
  exact ⟨c, hc, (traversals_deliver_positioned_iff byRecency c "aff4://v/y").mpr htraversed _ _ _
    (fun _ => by decide) fun _ => by decide⟩

end Conflicting

end Container

end EwfImage.Aff4
