import Mathlib.Data.List.Basic

/-! Frames that announce their own length on a stream of symbols without terminators. A head is read
from the front of what has arrived, says how many symbols it spans itself and how many belong to the
body behind it, and then the body runs until that count is reached.

`decode` reads a whole stream at once; `feed` goes on from any point with the symbols that arrive next.
The two agree for every way of cutting the stream, because a head that is recognised stays recognised
when more arrives. -/
namespace Framing

/-- A frame format. A head is recognised only when a symbol behind it has arrived as well, and from
then on whatever follows it makes no difference. -/
structure Format (α : Type) where
  Head : Type
  head : List α → Option Head
  headSize : Head → Nat
  bodySize : Head → Nat
  spans : ∀ h, 0 < headSize h
  beyond : ∀ {p h}, head p = some h → headSize h < p.length
  settled : ∀ {p h}, head p = some h → ∀ rest, rest ≠ [] → head (p.take (headSize h) ++ rest) = some h

variable {α : Type} {F : Format α}

theorem Format.stable {p : List α} {h : F.Head} (found : F.head p = some h) (q : List α) :
    F.head (p ++ q) = some h := by
  have beyond := F.beyond found
  have rest : p.drop (F.headSize h) ++ q ≠ [] := by
    intro empty
    have size := congrArg List.length empty
    simp only [List.length_append,List.length_drop,List.length_nil] at size
    omega
  have whole := F.settled found _ rest
  rwa [← List.append_assoc,List.take_append_drop] at whole

structure Frame (F : Format α) where
  head : F.Head
  front : List α
  body : List α

def Frame.symbols (f : Frame F) : List α := f.front ++ f.body

/-- What a stream has brought: the frames that are complete, the one whose body is still running, and
the symbols that belong to no frame yet. -/
structure Reception (F : Format α) where
  frames : List (Frame F)
  current : Option (Frame F)
  pending : List α

namespace Reception

def after (done : List (Frame F)) (r : Reception F) : Reception F := {r with frames := done ++ r.frames}

def symbols (r : Reception F) : List α :=
  (r.frames.map Frame.symbols).flatten ++ (r.current.elim [] Frame.symbols ++ r.pending)

def all (r : Reception F) : List (Frame F) := r.frames ++ r.current.toList

@[simp] theorem afterFrames (done : List (Frame F)) (r : Reception F) :
    (r.after done).frames = done ++ r.frames := rfl
@[simp] theorem afterCurrent (done : List (Frame F)) (r : Reception F) :
    (r.after done).current = r.current := rfl
@[simp] theorem afterPending (done : List (Frame F)) (r : Reception F) :
    (r.after done).pending = r.pending := rfl
@[simp] theorem afterNil (r : Reception F) : r.after [] = r := rfl
@[simp] theorem afterAfter (a b : List (Frame F)) (r : Reception F) :
    (r.after b).after a = r.after (a ++ b) := by simp [after]
@[simp] theorem afterAll (done : List (Frame F)) (r : Reception F) :
    (r.after done).all = done ++ r.all := by simp [all]
@[simp] theorem afterSymbols (done : List (Frame F)) (r : Reception F) :
    (r.after done).symbols = (done.map Frame.symbols).flatten ++ r.symbols := by
  simp [symbols]

end Reception

def decode (F : Format α) (p : List α) : Reception F :=
  match _found : F.head p with
  | none => ⟨[],none,p⟩
  | some h =>
    let front := p.take (F.headSize h)
    let rest := p.drop (F.headSize h)
    if rest.length < F.bodySize h then ⟨[],some ⟨h,front,rest⟩,[]⟩
    else (decode F (rest.drop (F.bodySize h))).after [⟨h,front,rest.take (F.bodySize h)⟩]
termination_by p.length
decreasing_by
  have spans := F.spans h
  have beyond := F.beyond _found
  simp only [List.length_drop]
  omega

def feed (r : Reception F) (q : List α) : Reception F :=
  match r.current with
  | none => (decode F (r.pending ++ q)).after r.frames
  | some f =>
    let need := F.bodySize f.head - f.body.length
    if q.length < need then ⟨r.frames,some {f with body := f.body ++ q},[]⟩
    else (decode F (q.drop need)).after (r.frames ++ [{f with body := f.body ++ q.take need}])

theorem decodeWaiting {p : List α} (none : F.head p = none) : decode F p = ⟨[],.none,p⟩ := by
  rw [decode]
  split
  · rfl
  · rename_i found
    rw [none] at found
    contradiction

theorem decodeHead {p : List α} {h : F.Head} (found : F.head p = some h) :
    decode F p = if p.length - F.headSize h < F.bodySize h then
        ⟨[],some ⟨h,p.take (F.headSize h),p.drop (F.headSize h)⟩,[]⟩
      else (decode F (p.drop (F.headSize h + F.bodySize h))).after
        [⟨h,p.take (F.headSize h),(p.drop (F.headSize h)).take (F.bodySize h)⟩] := by
  rw [decode]
  split
  · rename_i none
    rw [none] at found
    contradiction
  · rename_i other same
    have eq : other = h := Option.some.inj (same.symm.trans found)
    subst eq
    simp only [List.length_drop,List.drop_drop]

theorem decodeRunning {p : List α} {h : F.Head} (found : F.head p = some h)
    (short : p.length < F.headSize h + F.bodySize h) :
    decode F p = ⟨[],some ⟨h,p.take (F.headSize h),p.drop (F.headSize h)⟩,[]⟩ := by
  have beyond := F.beyond found
  rw [decodeHead found,if_pos (by omega)]

theorem decodeFrame {p : List α} {h : F.Head} (found : F.head p = some h)
    (enough : F.headSize h + F.bodySize h ≤ p.length) :
    decode F p = (decode F (p.drop (F.headSize h + F.bodySize h))).after
      [⟨h,p.take (F.headSize h),(p.drop (F.headSize h)).take (F.bodySize h)⟩] := by
  rw [decodeHead found,if_neg (by omega)]

theorem decodeInduction (F : Format α) {motive : List α → Prop}
    (waiting : ∀ p, F.head p = none → motive p)
    (running : ∀ p h, F.head p = some h → p.length < F.headSize h + F.bodySize h → motive p)
    (frame : ∀ p h, F.head p = some h → F.headSize h + F.bodySize h ≤ p.length →
      motive (p.drop (F.headSize h + F.bodySize h)) → motive p) (p : List α) : motive p := by
  induction size : p.length using Nat.strongRecOn generalizing p with
  | _ n ih =>
    cases found : F.head p with
    | none => exact waiting p found
    | some h =>
      by_cases enough : F.headSize h + F.bodySize h ≤ p.length
      · have spans := F.spans h
        refine frame p h found enough (ih _ ?_ _ rfl)
        rw [List.length_drop]
        omega
      · exact running p h found (by omega)

theorem feedDecode (p q : List α) : feed (decode F p) q = decode F (p ++ q) := by
  induction p using decodeInduction F with
  | waiting p none => rw [decodeWaiting none]; rfl
  | running p h found short =>
    have beyond := F.beyond found
    have later := Format.stable found q
    have front : (p ++ q).take (F.headSize h) = p.take (F.headSize h) :=
      List.take_append_of_le_length (by omega)
    have rest : (p ++ q).drop (F.headSize h) = p.drop (F.headSize h) ++ q :=
      List.drop_append_of_le_length (by omega)
    rw [decodeRunning found short]
    simp only [feed,List.length_drop,List.nil_append]
    split
    · rename_i few
      rw [decodeRunning later (by rw [List.length_append]; omega),front,rest]
    · rename_i many
      have cut : (p.drop (F.headSize h) ++ q).take (F.bodySize h) =
          p.drop (F.headSize h) ++ q.take (F.bodySize h - (p.length - F.headSize h)) := by
        rw [List.take_append,List.take_of_length_le (by rw [List.length_drop]; omega),List.length_drop]
      have left : (p ++ q).drop (F.headSize h + F.bodySize h) =
          q.drop (F.bodySize h - (p.length - F.headSize h)) := by
        rw [List.drop_append,List.drop_of_length_le (by omega),List.nil_append]
        congr 1
        omega
      rw [decodeFrame later (by rw [List.length_append]; omega),front,rest,cut,left]
  | frame p h found enough ih =>
    have later := Format.stable found q
    have beyond := F.beyond found
    have front : (p ++ q).take (F.headSize h) = p.take (F.headSize h) :=
      List.take_append_of_le_length (by omega)
    have rest : (p ++ q).drop (F.headSize h) = p.drop (F.headSize h) ++ q :=
      List.drop_append_of_le_length (by omega)
    have body : (p.drop (F.headSize h) ++ q).take (F.bodySize h) =
        (p.drop (F.headSize h)).take (F.bodySize h) :=
      List.take_append_of_le_length (by rw [List.length_drop]; omega)
    have left : (p ++ q).drop (F.headSize h + F.bodySize h) =
        p.drop (F.headSize h + F.bodySize h) ++ q := List.drop_append_of_le_length enough
    rw [decodeFrame found enough,decodeFrame later (by rw [List.length_append]; omega),front,rest,body,
      left,← ih]
    simp only [feed,Reception.afterCurrent,Reception.afterPending,Reception.afterFrames]
    split
    · simp
    · split
      · simp [Reception.after]
      · simp

theorem decodeSymbols (p : List α) : (decode F p).symbols = p := by
  induction p using decodeInduction F with
  | waiting p none => rw [decodeWaiting none]; rfl
  | running p h found short =>
    rw [decodeRunning found short]
    simp [Reception.symbols,Frame.symbols]
  | frame p h found enough ih =>
    rw [decodeFrame found enough,Reception.afterSymbols,ih]
    simp only [List.map_cons,List.map_nil,List.flatten_cons,List.flatten_nil,List.append_nil,
      Frame.symbols,List.append_assoc]
    rw [← List.drop_drop,List.take_append_drop,List.take_append_drop]

theorem decodePending (p : List α) : (decode F p).pending <:+ p := by
  induction p using decodeInduction F with
  | waiting p none => simp only [decodeWaiting none,List.suffix_rfl]
  | running p h found short => rw [decodeRunning found short]; exact List.nil_suffix
  | frame p h found enough ih => rw [decodeFrame found enough]; exact ih.trans (List.drop_suffix _ _)

theorem feedPending (r : Reception F) (q : List α) : (feed r q).pending <:+ r.pending ++ q := by
  unfold feed
  split
  · exact decodePending _
  · simp only
    split
    · exact List.nil_suffix
    · exact (decodePending _).trans ((List.drop_suffix _ _).trans (List.suffix_append _ _))

structure Frame.Read (f : Frame F) : Prop where
  found : ∀ rest, rest ≠ [] → F.head (f.front ++ rest) = some f.head
  front : f.front.length = F.headSize f.head

theorem Frame.Read.early {f : Frame F} (read : f.Read) {p : List α} (within : p <+: f.front) :
    F.head p = none := by
  cases none : F.head p with
  | none => rfl
  | some h =>
    obtain ⟨rest,split⟩ := within
    have beyond := F.beyond none
    have nonempty : p ≠ [] := by
      intro empty
      simp [empty] at beyond
    have later := Format.stable none (rest ++ p)
    rw [← List.append_assoc,split,read.found p nonempty] at later
    have same : f.head = h := Option.some.inj later
    have size := read.front
    rw [← split,List.length_append,same] at size
    omega

theorem headRead {p : List α} {h : F.Head} (found : F.head p = some h) (body : List α) :
    (Frame.mk h (p.take (F.headSize h)) body).Read where
  found := F.settled found
  front := by
    have beyond := F.beyond found
    exact List.length_take_of_le (by omega)

structure Reception.Sound (r : Reception F) : Prop where
  read : ∀ f ∈ r.all, f.Read
  complete : ∀ f ∈ r.frames, f.body.length = F.bodySize f.head
  running : ∀ f, r.current = some f → f.body ≠ [] ∧ f.body.length < F.bodySize f.head ∧ r.pending = []
  waiting : F.head r.pending = none

theorem emptyWaits (F : Format α) : F.head [] = none := by
  cases none : F.head [] with
  | none => rfl
  | some h => simpa using F.beyond none

theorem decodeSound (p : List α) : (decode F p).Sound := by
  induction p using decodeInduction F with
  | waiting p none =>
    rw [decodeWaiting none]
    exact ⟨by simp [Reception.all],by simp,by simp,none⟩
  | running p h found short =>
    have beyond := F.beyond found
    have size : (p.drop (F.headSize h)).length = p.length - F.headSize h := List.length_drop
    rw [decodeRunning found short]
    refine ⟨?_,by simp,?_,emptyWaits F⟩
    · intro f member
      have same : f = ⟨h,p.take (F.headSize h),p.drop (F.headSize h)⟩ := by
        simpa [Reception.all] using member
      rw [same]
      exact headRead found _
    · intro f current
      cases Option.some.inj current
      refine ⟨?_,by simp only [size]; omega,rfl⟩
      intro empty
      rw [show p.drop (F.headSize h) = [] from empty,List.length_nil] at size
      omega
  | frame p h found enough ih =>
    rw [decodeFrame found enough]
    refine ⟨?_,?_,ih.running,ih.waiting⟩
    · intro f member
      rw [Reception.afterAll] at member
      rcases List.mem_append.mp member with first | later
      · rw [List.mem_singleton.mp first]
        exact headRead found _
      · exact ih.read f later
    · intro f member
      rw [Reception.afterFrames] at member
      rcases List.mem_append.mp member with first | later
      · rw [List.mem_singleton.mp first]
        simp only [List.length_take,List.length_drop]
        omega
      · exact ih.complete f later

theorem decodeExtends (p q : List α) :
    (decode F p).frames <+: (decode F (p ++ q)).frames ∧
    ∀ f, (decode F p).current = some f → ∃ more rest,
      (decode F (p ++ q)).all = (decode F p).frames ++ {f with body := f.body ++ more} :: rest ∧
      more <+: q := by
  rw [← feedDecode]
  cases current : (decode F p).current with
  | none =>
    simp only [feed,current]
    exact ⟨List.prefix_append _ _,by simp⟩
  | some f =>
    simp only [feed,current]
    split
    · refine ⟨List.prefix_rfl,?_⟩
      intro g same
      cases Option.some.inj same
      exact ⟨q,[],by simp [Reception.all],List.prefix_rfl⟩
    · refine ⟨by simp [List.append_assoc],?_⟩
      intro g same
      cases Option.some.inj same
      exact ⟨_,_,by rw [Reception.afterAll,List.append_assoc]; rfl,List.take_prefix _ _⟩

/-! Streams made of whole frames. -/

structure Frame.Whole (f : Frame F) : Prop extends f.Read where
  body : f.body.length = F.bodySize f.head

def encode (fs : List (Frame F)) : List α := (fs.map Frame.symbols).flatten

@[simp] theorem encodeNil : encode ([] : List (Frame F)) = [] := rfl
@[simp] theorem encodeCons (f : Frame F) (fs : List (Frame F)) : encode (f :: fs) = f.symbols ++ encode fs := by
  simp [encode]
@[simp] theorem encodeAppend (a b : List (Frame F)) : encode (a ++ b) = encode a ++ encode b := by
  simp [encode]

theorem decodeWhole {f : Frame F} (whole : f.Whole) {rest : List α} (more : f.body ++ rest ≠ []) :
    decode F (f.symbols ++ rest) = (decode F rest).after [f] := by
  have found := whole.found _ more
  rw [Frame.symbols,List.append_assoc]
  have size := whole.front
  rw [decodeFrame found (by simp only [List.length_append,← size,← whole.body]; omega)]
  have front : (f.front ++ (f.body ++ rest)).take (F.headSize f.head) = f.front := by
    rw [← size]; simp
  have body : ((f.front ++ (f.body ++ rest)).drop (F.headSize f.head)).take (F.bodySize f.head) = f.body := by
    rw [← size,← whole.body]; simp
  have left : (f.front ++ (f.body ++ rest)).drop (F.headSize f.head + F.bodySize f.head) = rest := by
    rw [← size,← whole.body,← List.drop_drop]; simp
  rw [front,body,left]

theorem decodeEncode {fs : List (Frame F)} (whole : ∀ f ∈ fs, f.Whole) {tail : List α} (more : tail ≠ []) :
    decode F (encode fs ++ tail) = (decode F tail).after fs := by
  induction fs with
  | nil => simp
  | cons f fs ih =>
    have rest := ih (fun g member => whole g (List.mem_cons_of_mem _ member))
    have nonempty : f.body ++ (encode fs ++ tail) ≠ [] := by simp [more]
    rw [encodeCons,List.append_assoc,decodeWhole (whole f List.mem_cons_self) nonempty,rest,
      Reception.afterAfter]
    rfl

theorem decodeNil (F : Format α) : decode F [] = ⟨[],none,[]⟩ := decodeWaiting (emptyWaits F)

/-- A stream of whole frames is read back, except that a last frame with an empty body is not
recognised: nothing stands behind its front. -/
theorem decodeEncodeLast {fs : List (Frame F)} {f : Frame F} (whole : ∀ g ∈ fs ++ [f], g.Whole) :
    decode F (encode (fs ++ [f])) =
      if f.body = [] then ⟨fs,none,f.front⟩ else ⟨fs ++ [f],none,[]⟩ := by
  have last : f.Whole := whole f (by simp)
  have front : f.front ≠ [] := by
    intro empty
    have spans := F.spans f.head
    have size := last.front
    simp only [empty,List.length_nil] at size
    omega
  have each : ∀ g ∈ fs, g.Whole := fun g member => whole g (by simp [member])
  rw [encodeAppend,decodeEncode each (by simp [Frame.symbols,front])]
  split
  · rename_i empty
    have symbols : encode [f] = f.front := by simp [Frame.symbols,empty]
    rw [symbols,decodeWaiting (last.early List.prefix_rfl)]
    simp [Reception.after]
  · rename_i nonempty
    have more : f.body ++ [] ≠ [] := by simpa using nonempty
    have one := decodeWhole last more
    rw [List.append_nil] at one
    rw [encodeCons,encodeNil,List.append_nil,one,decodeNil]
    simp [Reception.after]

theorem decodeEncodePart {fs : List (Frame F)} (whole : ∀ f ∈ fs, f.Whole) {p : List α}
    (part : p <+: encode fs) :
    (decode F p).frames <+: fs ∧
    ∀ f, (decode F p).current = some f → ∃ more rest,
      fs = (decode F p).frames ++ {f with body := f.body ++ more} :: rest := by
  obtain ⟨q,split⟩ := part
  have extends_ := decodeExtends (F := F) p q
  rw [split] at extends_
  have first : (decode F (encode fs)).all <+: fs := by
    rcases List.eq_nil_or_concat fs with empty | ⟨init,last,same⟩
    · subst fs
      simp [decodeNil,Reception.all]
    · rw [same,List.concat_eq_append] at whole ⊢
      rw [decodeEncodeLast whole]
      split <;> simp [Reception.all]
  refine ⟨extends_.1.trans ((List.prefix_append _ _).trans first),?_⟩
  intro f current
  obtain ⟨more,rest,all,_⟩ := extends_.2 f current
  rw [all] at first
  obtain ⟨tail,same⟩ := first
  exact ⟨more,rest ++ tail,by rw [← same]; simp⟩

theorem decodeEncodePending {fs : List (Frame F)} (whole : ∀ f ∈ fs, f.Whole) {bound : Nat}
    (fronts : ∀ f ∈ fs, f.front.length ≤ bound) {p : List α} (part : p <+: encode fs) :
    (decode F p).pending.length ≤ bound := by
  induction fs generalizing p with
  | nil =>
    rw [encodeNil,List.prefix_nil] at part
    rw [part,decodeNil]
    exact Nat.zero_le _
  | cons f fs ih =>
    have first := whole f List.mem_cons_self
    rw [encodeCons] at part
    have front : f.front <+: f.symbols ++ encode fs := by
      rw [Frame.symbols,List.append_assoc]
      exact List.prefix_append _ _
    by_cases early : p.length ≤ f.front.length
    · rw [decodeWaiting (first.early (List.prefix_of_prefix_length_le part front early))]
      exact Nat.le_trans early (fronts f List.mem_cons_self)
    · obtain ⟨rest,split⟩ := List.prefix_of_prefix_length_le front part (by omega)
      have more : rest ≠ [] := by
        intro empty
        rw [empty,List.append_nil] at split
        rw [split] at early
        omega
      have found := first.found rest more
      rw [split] at found
      by_cases running : p.length < F.headSize f.head + F.bodySize f.head
      · rw [decodeRunning found running]
        exact Nat.zero_le _
      · have size : f.symbols.length ≤ p.length := by
          rw [Frame.symbols,List.length_append,first.front,first.body]
          omega
        obtain ⟨later,same⟩ := List.prefix_of_prefix_length_le (List.prefix_append _ _) part size
        rw [← same] at part ⊢
        have behind : f.body ++ later ≠ [] := by
          have cut : f.front ++ rest = f.front ++ (f.body ++ later) := by
            rw [split,← same,Frame.symbols,List.append_assoc]
          rw [← List.append_cancel_left cut]
          exact more
        rw [decodeWhole first behind,Reception.afterPending]
        exact ih (fun g member => whole g (List.mem_cons_of_mem _ member))
          (fun g member => fronts g (List.mem_cons_of_mem _ member)) ((List.prefix_append_right_inj _).mp part)

end Framing
