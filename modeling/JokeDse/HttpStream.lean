import JokeDse.HttpRecv
import JokeDse.Lib.Runs

/-! POST requests one behind the other on a connection, and what the calls of HttpRecv after each read deliver of
them. -/
namespace JokeDse
open Tokens Runs

def decimal (n : Nat) : Bytes := ascii (Nat.toDigits 10 n)

structure HttpRequest where
  header : Bytes
  body : Bytes
  begins : postMethod <+: header
  ends : ∃ before, First header emptyLine before []
  carries : contentLength ++ (ascii [':',' '] ++ (decimal body.length ++ ascii ['\r','\n'])) <:+: header
  text : 0 ∉ header
  clean : 0 ∉ body

def HttpRequest.length (r : HttpRequest) : Nat := r.header.length + r.body.length

def httpStream (requests : List HttpRequest) : Bytes := requests.flatMap fun r => r.header ++ r.body

inductive Calls (nBuffersize : Int) : SockReceiver → List Bytes → SockReceiver → Prop where
  | refused {c : SockReceiver} {r : HttpReceived} (call : httpRecv c nBuffersize = some r) (ends : r.result = -1) :
      Calls nBuffersize c [] r.client
  | taken {c c' : SockReceiver} {r : HttpReceived} {bodies : List Bytes} (call : httpRecv c nBuffersize = some r)
      (goes : r.result = 0) (rest : Calls nBuffersize r.client bodies c') :
      Calls nBuffersize c (r.pBuffer :: bodies) c'

inductive Serves (newChar : Int → Option Bytes) (nBuffersize : Int) :
    SockReceiver → List Bytes → List Bytes → SockReceiver → Prop where
  | ends {c : SockReceiver} : Serves newChar nBuffersize c [] [] c
  | reads {c c' c'' d : SockReceiver} {szTemp : Bytes} {more bodies later : List Bytes} {n : Int}
      (read : recv newChar c (.octets szTemp) = some (n,c')) (calls : Calls nBuffersize c' bodies c'')
      (rest : Serves newChar nBuffersize c'' more later d) :
      Serves newChar nBuffersize c (szTemp :: more) (bodies ++ later) d

section Spec

structure Pending where
  requests : List HttpRequest
  octets : Nat

def awaited : List HttpRequest → Nat → Pending
  | [], octets => ⟨[],octets⟩
  | r :: rest, octets =>
    if octets < r.length ∨ 0 < octets - r.length ∧ octets - r.length < 4 then ⟨r :: rest,octets⟩
    else awaited rest (octets - r.length)

/-- The octets end in a header or with a request whose body holds no POST; one to three octets of the next request
are too many for the destination together with the body before them. -/
def Separates (nBuffersize : Nat) : List HttpRequest → Nat → Prop
  | [], _ => True
  | r :: rest, octets => octets < r.header.length ∨ r.length ≤ octets ∧ ¬ postMethod <:+: r.body ∧
      if 0 < octets - r.length ∧ octets - r.length < 4 then nBuffersize < r.body.length + (octets - r.length)
      else Separates nBuffersize rest (octets - r.length)

instance decidableSeparates (nBuffersize : Nat) :
    (requests : List HttpRequest) → (octets : Nat) → Decidable (Separates nBuffersize requests octets)
  | [], _ => isTrue True.intro
  | r :: rest, octets =>
    have : Decidable (Separates nBuffersize rest (octets - r.length)) := decidableSeparates nBuffersize rest _
    inferInstanceAs (Decidable (octets < r.header.length ∨ r.length ≤ octets ∧ ¬ postMethod <:+: r.body ∧
      if 0 < octets - r.length ∧ octets - r.length < 4 then nBuffersize < r.body.length + (octets - r.length)
      else Separates nBuffersize rest (octets - r.length)))

def Pending.read (p : Pending) (szTemp : Bytes) : Option Pending := some (awaited p.requests (p.octets + szTemp.length))

def CutWell (nBuffersize : Nat) (p : Pending) (szTemp : Bytes) : Prop :=
  p.octets + szTemp.length < 65536 ∧ Separates nBuffersize p.requests (p.octets + szTemp.length)

instance (nBuffersize : Nat) (p : Pending) (szTemp : Bytes) : Decidable (CutWell nBuffersize p szTemp) :=
  inferInstanceAs (Decidable (_ ∧ _))

def Receivable (nBuffersize : Nat) (requests : List HttpRequest) (reads : List Bytes) : Prop :=
  Meets Pending.read (CutWell nBuffersize) reads ⟨requests,0⟩

instance (nBuffersize : Nat) (requests : List HttpRequest) (reads : List Bytes) :
    Decidable (Receivable nBuffersize requests reads) :=
  inferInstanceAs (Decidable (Meets Pending.read (CutWell nBuffersize) reads ⟨requests,0⟩))

end Spec

section Post
variable {body more rest : Bytes}

theorem postUnbordered : Unbordered postMethod := by decide

theorem nextPostFree (free : ¬ postMethod <:+: rest) : nextPost rest = rest.length := by
  rw [nextPost,strstrMissing free,Option.getD_none]

theorem nextPostFollows (free : ¬ postMethod <:+: body) (follows : postMethod <+: more) :
    nextPost (body ++ more) = body.length := by
  obtain ⟨after,rfl⟩ := follows
  rw [nextPost,strstrFound (postUnbordered.first free after),Option.getD_some]

theorem nextPostPart (free : ¬ postMethod <:+: body) (part : more <+: postMethod) (short : more.length < 4) :
    nextPost (body ++ more) = (body ++ more).length := by
  refine nextPostFree fun occurs => ?_
  obtain ⟨b,a,found⟩ := occurs
  obtain ⟨left,whole⟩ := part
  have first := postUnbordered.first free []
  rw [List.append_nil] at first
  have text : body ++ postMethod = b ++ (postMethod ++ (a ++ left)) := by
    calc body ++ postMethod = body ++ more ++ left := by rw [List.append_assoc,whole]
      _ = b ++ (postMethod ++ (a ++ left)) := by rw [← found,List.append_assoc,List.append_assoc]
  have below := first.below text
  have length := congrArg List.length found
  have four : postMethod.length = 4 := rfl
  rw [List.length_append,List.length_append,List.length_append] at length
  omega

theorem nextPostLess (begun : rest <+: body ++ more) (broken : rest.length < body.length ∨ postMethod <:+: body) :
    nextPost rest < body.length := by
  rcases Nat.lt_or_ge rest.length body.length with short | whole
  · exact Nat.lt_of_le_of_lt (nextPostInside rest) short
  · obtain ⟨x,same⟩ := List.prefix_of_prefix_length_le (List.prefix_append body more) begun whole
    obtain ⟨b,a,inside⟩ := broken.resolve_left (Nat.not_lt.mpr whole)
    have text : rest = b ++ (postMethod ++ (a ++ x)) := by
      rw [← same,← inside]
      simp only [List.append_assoc]
    have occurs : postMethod <:+: rest := ⟨b,a ++ x,by rw [text,List.append_assoc]⟩
    obtain ⟨before,after,first,found⟩ := strstrOccurs occurs
    have below := first.below text
    have length := congrArg List.length inside
    have four : postMethod.length = 4 := rfl
    rw [List.length_append,List.length_append] at length
    rw [nextPost,found,Option.getD_some]
    omega

end Post

section Calling
variable {nBuffersize : Nat} {c c' : SockReceiver} {b more : Bytes} {r : HttpRequest} {rest requests : List HttpRequest}
  {bodies : List Bytes}

theorem callsEnd {reply : HttpReceived} (call : httpRecv c nBuffersize = some reply) (ends : reply.result = -1)
    (calls : Calls nBuffersize c bodies c') : bodies = [] ∧ c' = reply.client := by
  cases calls with
  | refused call' ends' =>
    cases call.symm.trans call'
    exact ⟨rfl,rfl⟩
  | taken call' goes rest =>
    cases call.symm.trans call'
    rw [ends] at goes
    cases goes

theorem callsGo {reply : HttpReceived} (call : httpRecv c nBuffersize = some reply) (goes : reply.result = 0)
    (calls : Calls nBuffersize c bodies c') :
    ∃ later, bodies = reply.pBuffer :: later ∧ Calls nBuffersize reply.client later c' := by
  cases calls with
  | refused call' ends =>
    cases call.symm.trans call'
    rw [goes] at ends
    cases ends
  | taken call' goes' rest =>
    cases call.symm.trans call'
    exact ⟨_,rfl,rest⟩

theorem callsUnique {c'' : SockReceiver} {others : List Bytes} (calls : Calls nBuffersize c bodies c')
    (again : Calls nBuffersize c others c'') : others = bodies ∧ c'' = c' := by
  induction calls generalizing others with
  | refused call ends => exact callsEnd call ends again
  | taken call goes rest ih =>
    obtain ⟨later,rfl,next⟩ := callsGo call goes again
    obtain ⟨rfl,rfl⟩ := ih next
    exact ⟨rfl,rfl⟩

theorem headerPost (r : HttpRequest) : 4 ≤ r.header.length := r.begins.length_le

theorem streamClean (requests : List HttpRequest) : 0 ∉ httpStream requests := by
  intro zero
  obtain ⟨r,-,inside⟩ := List.mem_flatMap.mp zero
  exact (List.mem_append.mp inside).elim r.text r.clean

theorem prefixClean (begun : b <+: httpStream requests) : 0 ∉ b := fun zero => streamClean requests (begun.subset zero)

theorem httpRecvHeader (holding : Holding c b) (room : b.length < 65536) (begun : b <+: r.header)
    (short : b.length < r.header.length) : ∃ n, httpRecv c nBuffersize = some (.refused c n) := by
  have clean : 0 ∉ b := fun zero => r.text (begun.subset zero)
  rcases Nat.lt_or_ge b.length 4 with few | many
  · exact ⟨0,httpRecvShort holding clean few (List.prefix_of_prefix_length_le begun r.begins (Nat.le_of_lt few))⟩
  · have begins : postMethod <+: b := List.prefix_of_prefix_length_le r.begins begun many
    refine ⟨_,httpRecvWaits holding clean room begins ?_⟩
    rintro ⟨before,after,found⟩
    obtain ⟨first,ends⟩ := r.ends
    obtain ⟨left,whole⟩ := begun
    have text : r.header = before ++ (emptyLine ++ (after ++ left)) := by
      rw [← whole,← found]
      simp only [List.append_assoc]
    have below := ends.below text
    have length := congrArg List.length found
    have header := congrArg List.length ends.whole
    simp only [List.length_append,List.length_nil] at length header
    omega

theorem httpRecvBody (holding : Holding c (r.header ++ more)) (clean : 0 ∉ r.header ++ more)
    (room : (r.header ++ more).length < 65536) :
    if nBuffersize < nextPost more then httpRecv c nBuffersize = some (.refused c nBuffersize)
    else ∃ c', httpRecv c nBuffersize = some ⟨0,more.take (nextPost more),nextPost more,c'⟩ ∧
      Holding c' (more.drop (nextPost more)) := by
  obtain ⟨before,ends⟩ := r.ends
  have carries : contentLength <:+: r.header := (List.prefix_append _ _).isInfix.trans r.carries
  have takes := @httpRecvTakes c _ nBuffersize holding clean room _ _ _ rfl r.begins ends carries
  simpa only [Int.ofNat_lt] using takes

theorem headerArrived (begun : b <+: httpStream (r :: rest)) (whole : r.header.length ≤ b.length) :
    ∃ more, b = r.header ++ more ∧ more <+: r.body ++ httpStream rest := by
  have stream : httpStream (r :: rest) = r.header ++ (r.body ++ httpStream rest) := List.append_assoc _ _ _
  rw [stream] at begun
  obtain ⟨more,rfl⟩ := List.prefix_of_prefix_length_le (List.prefix_append _ _) begun whole
  exact ⟨more,rfl,(List.prefix_append_right_inj _).mp begun⟩

theorem bodyArrived {received : Bytes} (begun : received <+: r.body ++ httpStream rest)
    (whole : r.body.length ≤ received.length) : ∃ more, received = r.body ++ more ∧ more <+: httpStream rest := by
  obtain ⟨more,rfl⟩ := List.prefix_of_prefix_length_le (List.prefix_append _ _) begun whole
  exact ⟨more,rfl,(List.prefix_append_right_inj _).mp begun⟩

theorem streamBegins (begun : more <+: httpStream requests) :
    more = [] ∨ (more <+: postMethod ∧ more.length < 4) ∨ postMethod <+: more := by
  cases requests with
  | nil => exact .inl (List.prefix_nil.mp begun)
  | cons r rest =>
    have post : postMethod <+: httpStream (r :: rest) :=
      r.begins.trans ((List.prefix_append _ _).trans (List.prefix_append _ _))
    rcases Nat.lt_or_ge more.length 4 with few | many
    · exact .inr (.inl ⟨List.prefix_of_prefix_length_le begun post (Nat.le_of_lt few),few⟩)
    · exact .inr (.inr (List.prefix_of_prefix_length_le post begun many))

theorem requestLength (r : HttpRequest) (more : Bytes) :
    (r.header ++ (r.body ++ more)).length = r.length + more.length := by
  rw [HttpRequest.length,List.length_append,List.length_append,Nat.add_assoc]

theorem httpRecvRequest (holding : Holding c (r.header ++ (r.body ++ more))) (clean : 0 ∉ r.header ++ (r.body ++ more))
    (room : (r.header ++ (r.body ++ more)).length < 65536) (free : ¬ postMethod <:+: r.body)
    (next : more <+: httpStream rest) (whole : ¬ (0 < more.length ∧ more.length < 4))
    (fits : r.body.length ≤ nBuffersize) :
    ∃ c', httpRecv c nBuffersize = some ⟨0,r.body,r.body.length,c'⟩ ∧ Holding c' more := by
  have takes := @httpRecvBody nBuffersize c (r.body ++ more) r holding clean room
  have taken : nextPost (r.body ++ more) = r.body.length := by
    rcases streamBegins next with rfl | ⟨word,few⟩ | post
    · rw [List.append_nil]
      exact nextPostFree free
    · rw [nextPostPart free word few,List.length_append]
      omega
    · exact nextPostFollows free post
  rwa [taken,if_neg (Nat.not_lt.mpr fits),List.take_left,List.drop_left] at takes

theorem httpRecvPart (holding : Holding c (r.header ++ (r.body ++ more))) (clean : 0 ∉ r.header ++ (r.body ++ more))
    (room : (r.header ++ (r.body ++ more)).length < 65536) (free : ¬ postMethod <:+: r.body)
    (next : more <+: httpStream rest) (part : 0 < more.length ∧ more.length < 4) :
    if nBuffersize < r.body.length + more.length then httpRecv c nBuffersize = some (.refused c nBuffersize)
    else ∃ n c', httpRecv c nBuffersize = some ⟨0,r.body ++ more,n,c'⟩ := by
  have takes := @httpRecvBody nBuffersize c (r.body ++ more) r holding clean room
  rcases streamBegins next with rfl | ⟨word,-⟩ | post
  · exact absurd part.1 (Nat.lt_irrefl 0)
  · rw [nextPostPart free word part.2,List.take_length,List.length_append] at takes
    split
    · rwa [if_pos ‹_›] at takes
    · rw [if_neg ‹_›] at takes
      obtain ⟨c',call,-⟩ := takes
      exact ⟨_,c',call⟩
  · exact absurd post.length_le (Nat.not_le.mpr part.2)

structure Delivered (nBuffersize : Nat) (c : SockReceiver) (b : Bytes) (requests done left : List HttpRequest)
    (c' : SockReceiver) (b' : Bytes) : Prop where
  calls : Calls nBuffersize c (done.map HttpRequest.body) c'
  holding : Holding c' b'
  parts : requests = done ++ left
  pending : awaited requests b.length = ⟨left,b'.length⟩
  octets : b = httpStream done ++ b'

theorem deliveredNone {n : Int} (holding : Holding c b) (call : httpRecv c nBuffersize = some (.refused c n))
    (waits : awaited requests b.length = ⟨requests,b.length⟩) : Delivered nBuffersize c b requests [] requests c b where
  calls := .refused call rfl
  holding := holding
  parts := rfl
  pending := waits
  octets := rfl

theorem streamAppend (done left : List HttpRequest) : httpStream (done ++ left) = httpStream done ++ httpStream left :=
  List.flatMap_append

theorem Delivered.follows {done left : List HttpRequest} {b' later : Bytes}
    (delivered : Delivered nBuffersize c b requests done left c' b') (whole : b ++ later = httpStream requests) :
    b' ++ later = httpStream left := by
  rw [delivered.octets,delivered.parts,streamAppend,List.append_assoc] at whole
  exact List.append_cancel_left whole

theorem callsDeliver (holding : Holding c b) (room : b.length < 65536) (begun : b <+: httpStream requests)
    (fits : ∀ r ∈ requests, r.body.length ≤ nBuffersize) (separates : Separates nBuffersize requests b.length) :
    ∃ done left c' b', Delivered nBuffersize c b requests done left c' b' := by
  induction requests generalizing c b with
  | nil =>
    have empty : b = [] := List.prefix_nil.mp begun
    subst empty
    exact ⟨[],[],c,[],deliveredNone holding (httpRecvShort holding List.not_mem_nil (by decide) List.nil_prefix) rfl⟩
  | cons r rest ih =>
    rcases separates with early | ⟨whole,free,separates⟩
    · have waits : awaited (r :: rest) b.length = ⟨r :: rest,b.length⟩ :=
        if_pos (.inl (Nat.lt_of_lt_of_le early (Nat.le_add_right _ _)))
      have header : b <+: r.header := by
        have start : r.header <+: httpStream (r :: rest) := (List.prefix_append _ _).trans (List.prefix_append _ _)
        exact List.prefix_of_prefix_length_le begun start (Nat.le_of_lt early)
      obtain ⟨n,refused⟩ := @httpRecvHeader nBuffersize c b r holding room header early
      exact ⟨[],_,c,b,deliveredNone holding refused waits⟩
    · have clean := prefixClean begun
      obtain ⟨received,rfl,behind⟩ := headerArrived begun (Nat.le_trans (Nat.le_add_right _ _) whole)
      rw [List.length_append,HttpRequest.length] at whole
      obtain ⟨more,rfl,next⟩ := bodyArrived behind (by omega)
      have length := requestLength r more
      have left : (r.header ++ (r.body ++ more)).length - r.length = more.length := by omega
      rw [left] at separates
      by_cases part : 0 < more.length ∧ more.length < 4
      · have waits : awaited (r :: rest) (r.header ++ (r.body ++ more)).length =
            ⟨r :: rest,(r.header ++ (r.body ++ more)).length⟩ := if_pos (.inr (by rwa [left]))
        have call := @httpRecvPart nBuffersize c more r rest holding clean room free next part
        rw [if_pos part] at separates
        rw [if_pos separates] at call
        exact ⟨[],_,c,_,deliveredNone holding call waits⟩
      · have goesOn : awaited (r :: rest) (r.header ++ (r.body ++ more)).length = awaited rest more.length := by
          rw [awaited,left,if_neg]
          rintro (short | other)
          · omega
          · exact part other
        rw [if_neg part] at separates
        obtain ⟨c₁,call,holding₁⟩ := httpRecvRequest holding clean room free next part (fits r List.mem_cons_self)
        obtain ⟨done,left,c',b',delivered⟩ := ih holding₁ (by omega) next
          (fun r member => fits r (List.mem_cons_of_mem _ member)) separates
        refine ⟨r :: done,left,c',b',.taken call rfl delivered.calls,delivered.holding,?_,?_,?_⟩
        · rw [List.cons_append,← delivered.parts]
        · rw [goesOn,delivered.pending]
        · rw [delivered.octets]
          simp [httpStream]

theorem callsWrong (holding : Holding c b) (room : b.length < 65536) (begun : b <+: httpStream requests)
    (fits : ∀ r ∈ requests, r.body.length ≤ nBuffersize) (broken : ¬ Separates nBuffersize requests b.length)
    (calls : Calls nBuffersize c bodies c') : ¬ bodies <+: requests.map HttpRequest.body := by
  induction requests generalizing c b bodies with
  | nil => exact absurd True.intro broken
  | cons r rest ih =>
    intro delivered
    obtain ⟨late,broken⟩ := not_or.mp broken
    have clean := prefixClean begun
    have small := fits r List.mem_cons_self
    obtain ⟨received,rfl,behind⟩ := headerArrived begun (Nat.le_of_not_lt late)
    by_cases cut : received.length < r.body.length ∨ postMethod <:+: r.body
    · have takes := @httpRecvBody nBuffersize c received r holding clean room
      have less := nextPostLess behind cut
      rw [if_neg (by omega)] at takes
      obtain ⟨c₁,call,-⟩ := takes
      obtain ⟨later,rfl,-⟩ := callsGo call rfl calls
      have same := (List.cons_prefix_cons.mp delivered).1
      have length := congrArg List.length same
      rw [List.length_take] at length
      omega
    · obtain ⟨whole,free⟩ := not_or.mp cut
      obtain ⟨more,rfl,next⟩ := bodyArrived behind (Nat.le_of_not_lt whole)
      have length := requestLength r more
      have left : (r.header ++ (r.body ++ more)).length - r.length = more.length := by omega
      have long : r.length ≤ (r.header ++ (r.body ++ more)).length := by omega
      rw [left] at broken
      by_cases part : 0 < more.length ∧ more.length < 4
      · have call := @httpRecvPart nBuffersize c more r rest holding clean room free next part
        rw [if_neg fun large => broken ⟨long,free,by rwa [if_pos part]⟩] at call
        obtain ⟨n,c₁,call⟩ := call
        obtain ⟨later,rfl,-⟩ := callsGo call rfl calls
        have same := congrArg List.length (List.cons_prefix_cons.mp delivered).1
        rw [List.length_append] at same
        omega
      · obtain ⟨c₁,call,holding₁⟩ := httpRecvRequest holding clean room free next part small
        obtain ⟨later,rfl,calls₁⟩ := callsGo call rfl calls
        refine ih holding₁ (by omega) next (fun r member => fits r (List.mem_cons_of_mem _ member)) ?_ calls₁
          (List.cons_prefix_cons.mp delivered).2
        exact fun separates => broken ⟨long,free,by rwa [if_neg part]⟩

end Calling

section Run
variable {newChar : Int → Option Bytes} {nBuffersize : Nat} {c d : SockReceiver} {b : Bytes}
  {requests : List HttpRequest} {reads : List Bytes}

def Pending.Open (p : Pending) : Prop := p.requests = [] ∨ p.octets < (httpStream p.requests).length

theorem awaitedOpen {octets : Nat} (inside : octets ≤ (httpStream requests).length) :
    (awaited requests octets).Open := by
  induction requests generalizing octets with
  | nil => exact .inl rfl
  | cons r rest ih =>
    have length : (httpStream (r :: rest)).length = r.length + (httpStream rest).length := by
      rw [httpStream,List.flatMap_cons,List.length_append,List.length_append]
      rfl
    rw [awaited]
    split
    · rename_i waits
      refine .inr ?_
      rcases waits with early | part
      · exact Nat.lt_of_lt_of_le early (by rw [length]; exact Nat.le_add_right _ _)
      · cases rest with
        | nil =>
          rw [length] at inside
          simp only [httpStream,List.flatMap_nil,List.length_nil] at inside
          omega
        | cons next later =>
          have post := headerPost next
          have longer : next.header.length ≤ (httpStream (next :: later)).length := by
            simp only [httpStream,List.flatMap_cons,List.length_append]
            omega
          show octets < (httpStream (r :: next :: later)).length
          omega
    · exact ih (by omega)

theorem receivableServes (holding : Holding c b) (whole : b ++ reads.flatten = httpStream requests)
    (fits : ∀ r ∈ requests, r.body.length ≤ nBuffersize) (each : ∀ szTemp ∈ reads, szTemp ≠ [])
    (opened : Pending.Open ⟨requests,b.length⟩)
    (meets : Meets Pending.read (CutWell nBuffersize) reads ⟨requests,b.length⟩) :
    ∃ d, Serves newChar nBuffersize c reads (requests.map HttpRequest.body) d := by
  induction reads generalizing c b requests with
  | nil =>
    rw [List.flatten_nil,List.append_nil] at whole
    rcases opened with none | short
    · have none : requests = [] := none
      subst none
      exact ⟨c,.ends⟩
    · rw [whole] at short
      exact absurd short (Nat.lt_irrefl _)
  | cons szTemp more ih =>
    obtain ⟨⟨room,separates⟩,later⟩ := meets
    rw [List.flatten_cons,← List.append_assoc] at whole
    have begun : b ++ szTemp <+: httpStream requests := ⟨_,whole⟩
    have length : (b ++ szTemp).length = b.length + szTemp.length := List.length_append
    obtain ⟨n,c₁,read,holding₁⟩ := @recvHolds newChar c b szTemp holding (each szTemp List.mem_cons_self)
      (Nat.le_of_lt room)
    simp only [← length] at room separates later
    obtain ⟨done,left,c',b',delivered⟩ := callsDeliver holding₁ room begun fits separates
    have opened := awaitedOpen begun.length_le
    have kept : left ⊆ requests := delivered.parts ▸ List.subset_append_right done left
    rw [delivered.pending] at opened
    obtain ⟨d,serves⟩ := ih delivered.holding (delivered.follows whole) (fun r member => fits r (kept member))
      (fun s member => each s (List.mem_cons_of_mem _ member)) opened
      (later _ (by rw [Pending.read,← length,delivered.pending]))
    refine ⟨d,?_⟩
    rw [delivered.parts,List.map_append]
    exact .reads read delivered.calls serves

theorem servesReceivable (holding : Holding c b) (below : b.length < 65536)
    (whole : b ++ reads.flatten = httpStream requests)
    (fits : ∀ r ∈ requests, r.body.length ≤ nBuffersize) (each : ∀ szTemp ∈ reads, szTemp ≠ [] ∧ szTemp.length ≤ 8192)
    (serves : Serves debugNew nBuffersize c reads (requests.map HttpRequest.body) d) :
    Meets Pending.read (CutWell nBuffersize) reads ⟨requests,b.length⟩ := by
  induction reads generalizing c b requests with
  | nil => exact True.intro
  | cons szTemp more ih =>
    rw [List.flatten_cons,← List.append_assoc] at whole
    have begun : b ++ szTemp <+: httpStream requests := ⟨_,whole⟩
    have length : (b ++ szTemp).length = b.length + szTemp.length := List.length_append
    obtain ⟨nonempty,short⟩ := each szTemp List.mem_cons_self
    generalize all : requests.map HttpRequest.body = bodies at serves
    cases serves with
    | @reads _ c₁ c₂ _ _ _ taken later n read calls rest =>
      have room : b.length + szTemp.length < 65536 := by
        refine Nat.lt_of_not_le fun full => ?_
        obtain ⟨_,_,read',none⟩ := recvFills holding (prefixClean begun) below full short
        cases read.symm.trans read'
        have undefined := @httpRecvFull c₁ nBuffersize none
        cases calls with
        | refused call => cases undefined.symm.trans call
        | taken call => cases undefined.symm.trans call
      obtain ⟨_,_,read',holding₁⟩ := @recvHolds debugNew c b szTemp holding nonempty (Nat.le_of_lt room)
      cases read.symm.trans read'
      rw [← length] at room
      have separates : Separates nBuffersize requests (b ++ szTemp).length := by
        by_contra broken
        exact callsWrong holding₁ room begun fits broken calls ⟨later,all.symm⟩
      obtain ⟨done,left,c',b',delivered⟩ := callsDeliver holding₁ room begun fits separates
      obtain ⟨rfl,rfl⟩ := callsUnique delivered.calls calls
      have kept : left ⊆ requests := delivered.parts ▸ List.subset_append_right done left
      rw [delivered.parts,List.map_append,List.append_cancel_left_eq] at all
      refine ⟨by rw [CutWell,← length]; exact ⟨room,separates⟩,fun t same => ?_⟩
      rw [Pending.read,← length,delivered.pending] at same
      cases same
      have below : b'.length < 65536 := by
        rw [delivered.octets,List.length_append] at room
        omega
      exact ih delivered.holding below (delivered.follows whole) (fun r member => fits r (kept member))
        (fun s member => each s (List.mem_cons_of_mem _ member)) (all ▸ rest)

end Run

section Claim
variable {nBuffersize : Nat} {requests : List HttpRequest} {reads : List Bytes}

theorem startOpen (requests : List HttpRequest) : Pending.Open ⟨requests,0⟩ := by
  cases requests with
  | nil => exact .inl rfl
  | cons r rest =>
    refine .inr ?_
    have post := headerPost r
    simp only [httpStream,List.flatMap_cons,List.length_append]
    omega

theorem httpRecvDelivers (whole : reads.flatten = httpStream requests)
    (each : ∀ szTemp ∈ reads, szTemp ≠ [] ∧ szTemp.length ≤ 8192) (fits : ∀ r ∈ requests, r.body.length ≤ nBuffersize) :
    (∀ newChar : Int → Option Bytes, (∀ n p, newChar n = some p → (p.length : Int) = n) →
      ∃ d, Serves newChar nBuffersize .new reads (requests.map HttpRequest.body) d) ↔
    Receivable nBuffersize requests reads := by
  constructor
  · intro delivers
    obtain ⟨d,serves⟩ := delivers debugNew debugNewSize
    exact servesReceivable holdingNew (by decide) whole fits each serves
  · intro meets newChar _
    exact receivableServes holdingNew whole fits (fun s member => (each s member).1) (startOpen requests) meets

def okHeader : Bytes :=
  ascii ['P','O','S','T',' ','/',' ','H','T','T','P','/','1','.','1','\r','\n'] ++ (contentLength ++
    ascii [':',' ','2','\r','\n','\r','\n'])

theorem okHeaderEnds : First okHeader emptyLine (okHeader.take 34) [] := ⟨by decide,by decide⟩

def okRequest : HttpRequest where
  header := okHeader
  body := ascii ['o','k']
  begins := by decide
  ends := ⟨_,okHeaderEnds⟩
  carries := by decide
  text := by decide
  clean := by decide

theorem httpRecvDeliversTwo : ∃ d, Serves debugNew 2 .new
    [okHeader.take 10,okHeader.drop 10 ++ (okRequest.body ++ (okHeader ++ okRequest.body))]
    [okRequest.body,okRequest.body] d :=
  (@httpRecvDelivers 2 [okRequest,okRequest] _ (by decide) (by decide) (by decide)).mpr (by decide) debugNew
    debugNewSize

theorem httpRecvSplits : ¬ ∀ (nBuffersize : Nat) (requests : List HttpRequest) (reads : List Bytes),
    reads.flatten = httpStream requests → (∀ szTemp ∈ reads, szTemp ≠ [] ∧ szTemp.length ≤ 8192) →
    (∀ r ∈ requests, r.body.length ≤ nBuffersize) → ∀ newChar : Int → Option Bytes,
    (∀ n p, newChar n = some p → (p.length : Int) = n) →
    ∃ d, Serves newChar nBuffersize .new reads (requests.map HttpRequest.body) d := by
  intro always
  obtain ⟨d,serves⟩ := always 2 [okRequest] [okHeader,okRequest.body] (by decide) (by decide) (by decide) debugNew
    debugNewSize
  have receivable : Receivable 2 [okRequest] [okHeader,okRequest.body] :=
    servesReceivable holdingNew (by decide) (by decide) (by decide) (by decide) serves
  revert receivable
  decide

end Claim

end JokeDse
