import JokeDse.MergeCopies
import JokeDse.Lib.Slots
import JokeDse.Lib.Tokens

/-! SocketUtils: Recv and HttpRecv of CSockClient, over the block of memory the octets are received in. -/
namespace JokeDse
open Slots Tokens

def ascii (text : List Char) : Bytes := text.map fun c => BitVec.ofNat 8 c.toNat

def postMethod : Bytes := ascii ['P','O','S','T']
def getMethod : Bytes := ascii ['G','E','T']
def emptyLine : Bytes := ascii ['\r','\n','\r','\n']
def contentLength : Bytes := ascii ['C','o','n','t','e','n','t','-','L','e','n','g','t','h']

/-- The string at the start of a block. Without a terminator in the block it is undefined (`none`). -/
def cString (block : Bytes) : Option Bytes := if block.contains 0 then some (block.takeWhile (· != 0)) else none

def strstr : Bytes → Bytes → Option Nat
  | [], word => if word = [] then some 0 else none
  | c :: text, word => if word <+: c :: text then some 0 else (strstr text word).map (· + 1)

structure SockReceiver where
  s : Bool
  pRecvBuffer : Bytes
  nDataLength : Int
  nRecvBufferSize : Int
  m_nTotalRecv : BitVec 64
  deriving DecidableEq, Repr

def SockReceiver.new : SockReceiver := ⟨true,table 0 65536 [],0,65536,0⟩

inductive Arrival where
  | octets (szTemp : Bytes)
  | closed
  | wouldBlock
  | failed
  deriving DecidableEq, Repr

def recv (newChar : Int → Option Bytes) (c : SockReceiver) (arrival : Arrival) : Option (Int × SockReceiver) :=
  if c.s = false then some (-1,c)
  else match arrival with
    | .closed => some (-1,c)
    | .wouldBlock => some (0,c)
    | .failed => some (-1,c)
    | .octets szTemp =>
      match memMergeCopies newChar ⟨c.pRecvBuffer,c.nDataLength,c.nRecvBufferSize⟩ szTemp szTemp.length with
      | .returned _ d => some (d.nDestBuffLength,
          ⟨c.s,d.pDestBuff,d.nDestBuffLength,d.nDestBuffSize,c.m_nTotalRecv + BitVec.ofNat 64 szTemp.length⟩)
      | .endless => none
      | .overrun => none

structure HttpReceived where
  result : Int
  pBuffer : Bytes
  nBuffersize : Int
  client : SockReceiver
  deriving DecidableEq, Repr

def HttpReceived.refused (c : SockReceiver) (nBuffersize : Int) : HttpReceived := ⟨-1,[],nBuffersize,c⟩

def recvRequest (method : Bytes) (c : SockReceiver) (nBuffersize : Int) (recvd : Bytes) (pHttpHeader : Nat) :
    Option HttpReceived :=
  let http := recvd.drop pHttpHeader
  let nHttpLength := http.length
  match strstr http emptyLine with
  | none => some (.refused c nBuffersize)
  | some found =>
    let nHeaderLen := found + 4
    if nHeaderLen > c.nDataLength ∨ nHeaderLen > nHttpLength then some (.refused c nBuffersize)
    else
      let pJsonPackage := http.drop nHeaderLen
      let nJsonLength := (strstr pJsonPackage method).getD (nHttpLength - nHeaderLen)
      if strstr recvd contentLength = none ∨ nBuffersize < nJsonLength then some (.refused c nBuffersize)
      else
        let nProcessLen := nHeaderLen + nJsonLength
        if nHttpLength = nProcessLen then
          (fill 0 c.nDataLength.toNat 0 c.pRecvBuffer).map fun pRecvBuffer =>
            ⟨0,pJsonPackage.take nJsonLength,nJsonLength,{c with pRecvBuffer, nDataLength := 0}⟩
        else
          let nRemainedLength := nHttpLength - nProcessLen
          ((memmove 0 (pHttpHeader + nProcessLen) nRemainedLength c.pRecvBuffer).bind
            (fill nRemainedLength (nProcessLen + pHttpHeader) 0)).map fun pRecvBuffer =>
              ⟨0,pJsonPackage.take nJsonLength,nJsonLength,{c with pRecvBuffer, nDataLength := nRemainedLength}⟩

def httpRecv (c : SockReceiver) (nBuffersize : Int) : Option HttpReceived := do
  let recvd ← cString c.pRecvBuffer
  match strstr recvd postMethod with
  | some pHttpHeader => recvRequest postMethod c nBuffersize recvd pHttpHeader
  | none =>
    match strstr recvd getMethod with
    | some pHttpHeader => recvRequest getMethod c nBuffersize recvd pHttpHeader
    | none => some (.refused c 0)

section Strings
variable {text word before after block : Bytes}

theorem strstrFound (first : First text word before after) : strstr text word = some before.length := by
  have whole := first.whole
  induction before generalizing text with
  | nil =>
    have here : word <+: text := ⟨after,whole.symm⟩
    cases text with
    | nil =>
      rw [strstr,if_pos (List.prefix_nil.mp here)]
      rfl
    | cons c text =>
      rw [strstr,if_pos here]
      rfl
  | cons c before ih =>
    subst whole
    have later : First (before ++ (word ++ after)) word before after :=
      ⟨rfl,fun i earlier => first.first (i + 1) (Nat.succ_lt_succ earlier)⟩
    have elsewhere : ¬ word <+: c :: (before ++ (word ++ after)) := first.first 0 (Nat.succ_pos _)
    rw [List.cons_append,strstr,if_neg elsewhere,ih later rfl]
    rfl

theorem strstrMissing (absent : ¬ word <:+: text) : strstr text word = none := by
  induction text with
  | nil =>
    rw [strstr,if_neg]
    rintro rfl
    exact absent List.infix_rfl
  | cons c text ih =>
    rw [strstr,if_neg fun here => absent here.isInfix,ih fun occurs => absent (List.infix_cons occurs)]
    rfl

theorem strstrOccurs (occurs : word <:+: text) : ∃ before after, First text word before after ∧
    strstr text word = some before.length := by
  obtain ⟨before,after,first⟩ := firstExists occurs
  exact ⟨before,after,first,strstrFound first⟩

theorem cStringEnds (clean : 0 ∉ text) (rest : Bytes) : cString (text ++ 0 :: rest) = some text := by
  have plain : ∀ c ∈ text, (c != 0) = true := fun c member => bne_iff_ne.mpr fun zero => clean (zero ▸ member)
  rw [cString,if_pos (List.contains_iff_mem.mpr (List.mem_append_right _ List.mem_cons_self)),
    List.takeWhile_append_of_pos plain]
  simp

theorem strstrInside : (strstr text word).getD text.length ≤ text.length := by
  by_cases occurs : word <:+: text
  · obtain ⟨before,after,first,found⟩ := strstrOccurs occurs
    have length := congrArg List.length first.whole
    rw [List.length_append] at length
    rw [found,Option.getD_some]
    omega
  · rw [strstrMissing occurs,Option.getD_none]

end Strings

structure Holding (c : SockReceiver) (b : Bytes) : Prop where
  valid : c.s = true
  block : c.pRecvBuffer = table 0 65536 b
  stored : c.nDataLength = b.length
  size : c.nRecvBufferSize = 65536

theorem holdingNew : Holding .new [] := ⟨rfl,rfl,rfl,rfl⟩

theorem memcpyTable {slots : Nat} {b chunk : Bytes} (fits : b.length + chunk.length ≤ slots) :
    memcpy (table 0 slots b) b.length chunk chunk.length = some (table 0 slots (b ++ chunk)) := by
  have all : (table 0 slots b).length = slots := tableLength (by omega)
  have length : (b ++ chunk).length = b.length + chunk.length := List.length_append
  rw [memcpy,if_pos ⟨Int.natCast_nonneg _,Int.natCast_nonneg _,by omega,Int.le_refl _⟩,← Int.natCast_add,
    Int.toNat_natCast,Int.toNat_natCast,Int.toNat_natCast,List.take_length,table,List.take_left,← List.drop_drop,List.drop_left,
    List.drop_replicate,← List.append_assoc,table,length,Nat.sub_sub]

section Holding
variable {newChar : Int → Option Bytes} {c : SockReceiver} {b chunk : Bytes} {nBuffersize : Int}

theorem recvHolds (holding : Holding c b) (some : chunk ≠ []) (fits : b.length + chunk.length ≤ 65536) :
    ∃ n c', recv newChar c (.octets chunk) = .some (n,c') ∧ Holding c' (b ++ chunk) := by
  have few : 0 < chunk.length := List.length_pos_iff.mpr some
  have sum : int ((chunk.length : Int) + b.length) = ((b ++ chunk).length : Nat) := by
    rw [List.length_append,Nat.add_comm]
    exact intAdd (by omega)
  have merged : memMergeCopies newChar ⟨c.pRecvBuffer,c.nDataLength,c.nRecvBufferSize⟩ chunk chunk.length =
      .returned true ⟨table 0 65536 (b ++ chunk),(b ++ chunk).length,65536⟩ := by
    have inside : ((b ++ chunk).length : Int) ≤ 65536 := by
      rw [List.length_append]
      omega
    simp only [memMergeCopies,holding.block,holding.stored,holding.size,sum]
    rw [if_neg (by omega),if_pos inside,memcpyTable fits]
  rw [recv,if_neg (by simp [holding.valid])]
  simp only [merged]
  exact ⟨_,_,rfl,holding.valid,rfl,rfl,rfl⟩

theorem memcpyOctets {destination source p : Bytes} {offset count : Int} {x : Byte}
    (copied : memcpy destination offset source count = some p) (member : x ∈ p) :
    x ∈ source.take count.toNat ∨ x ∈ destination := by
  unfold memcpy at copied
  split at copied
  · cases copied
    rcases List.mem_append.mp member with front | behind
    · exact .inr (List.mem_of_mem_take front)
    · exact (List.mem_append.mp behind).imp_right List.mem_of_mem_drop
  · cases copied

theorem growsOnce {n : Int} (beyond : 65536 < n) (enough : n ≤ 131072) : growLoop 33 65536 n = some 131072 := by
  have doubled : int (65536 * 2) = 131072 := by decide
  rw [growLoop,if_pos beyond,doubled,growLoop,if_neg (by omega)]

/-- Filled up, or grown in a debug build, the block has no terminator behind the octets. -/
theorem recvFills (holding : Holding c b) (clean : 0 ∉ b ++ chunk) (below : b.length < 65536)
    (full : 65536 ≤ b.length + chunk.length) (short : chunk.length ≤ 8192) :
    ∃ n c', recv debugNew c (.octets chunk) = some (n,c') ∧ 0 ∉ c'.pRecvBuffer := by
  have some : chunk ≠ [] := by
    rintro rfl
    rw [List.length_nil] at full
    omega
  rcases Nat.eq_or_lt_of_le full with fits | beyond
  · obtain ⟨n,c',read,holds⟩ := @recvHolds debugNew c b chunk holding some (by omega)
    have none : 65536 - (b ++ chunk).length = 0 := by
      rw [List.length_append]
      omega
    refine ⟨n,c',read,?_⟩
    rwa [holds.block,table,none,List.replicate_zero,List.append_nil]
  · have sum : int ((chunk.length : Int) + b.length) = chunk.length + b.length := intFits (by omega) (by omega)
    have few : 0 < chunk.length := List.length_pos_iff.mpr some
    have new : debugNew 131072 = .some (List.replicate 131072 0xCD) := if_pos (by decide)
    have held : (table 0 65536 b).length = 65536 := tableLength (by omega)
    have room : (List.replicate 131072 (0xCD : Byte)).length = 131072 := List.length_replicate
    obtain ⟨p,copied,same,-⟩ := memcpyTakes (List.replicate 131072 0xCD) (table 0 65536 b) (Int.le_refl 0)
      (Int.natCast_nonneg b.length) (by omega) (by omega)
    obtain ⟨q,appended,-,-⟩ := memcpyTakes p chunk (Int.natCast_nonneg b.length) (Int.natCast_nonneg chunk.length)
      (by omega) (Int.le_refl _)
    have merged : memMergeCopies debugNew ⟨c.pRecvBuffer,c.nDataLength,c.nRecvBufferSize⟩ chunk chunk.length =
        .returned true ⟨q,chunk.length + b.length,131072⟩ := by
      simp only [memMergeCopies,holding.block,holding.stored,holding.size,sum]
      rw [if_neg (by omega),if_neg (by omega),growsOnce (by omega) (by omega)]
      simp only [new,copied,Option.bind_some,appended]
    rw [recv,if_neg (by simp [holding.valid])]
    simp only [merged]
    refine ⟨_,_,rfl,fun zero => ?_⟩
    rcases memcpyOctets appended zero with added | old
    · exact clean (List.mem_append_right _ (List.mem_of_mem_take added))
    · rcases memcpyOctets copied old with moved | fresh
      · rw [Int.toNat_natCast,table,List.take_left] at moved
        exact clean (List.mem_append_left _ moved)
      · exact absurd (List.eq_of_mem_replicate fresh) (by decide)

theorem holdingString (holding : Holding c b) (clean : 0 ∉ b) (room : b.length < 65536) :
    cString c.pRecvBuffer = some b := by
  obtain ⟨more,left⟩ : ∃ more, 65536 - b.length = more + 1 := ⟨65535 - b.length,by omega⟩
  rw [holding.block,table,left,List.replicate_succ]
  exact cStringEnds clean _

theorem httpRecvFull (full : 0 ∉ c.pRecvBuffer) : httpRecv c nBuffersize = none := by
  rw [httpRecv,cString,if_neg fun zero => full (List.contains_iff_mem.mp zero)]
  rfl

theorem httpRecvShort (holding : Holding c b) (clean : 0 ∉ b) (short : b.length < 4) (begins : b <+: postMethod) :
    httpRecv c nBuffersize = some (.refused c 0) := by
  have noPost : ¬ postMethod <:+: b := fun occurs => absurd occurs.length_le (Nat.not_le.mpr short)
  have noGet : ¬ getMethod <:+: b := fun occurs => absurd (occurs.trans begins.isInfix) (by decide)
  simp only [httpRecv,holdingString holding clean (by omega),bind,Option.bind,strstrMissing noPost,strstrMissing noGet]

theorem postFound (begins : postMethod <+: b) : strstr b postMethod = some 0 := by
  obtain ⟨after,whole⟩ := begins
  have first : First b postMethod [] after := ⟨whole.symm,fun i below => absurd below (Nat.not_lt_zero i)⟩
  exact strstrFound first

theorem httpRecvPost (holding : Holding c b) (clean : 0 ∉ b) (room : b.length < 65536) (begins : postMethod <+: b) :
    httpRecv c nBuffersize = recvRequest postMethod c nBuffersize b 0 := by
  simp only [httpRecv,holdingString holding clean room,bind,Option.bind,postFound begins]

theorem httpRecvWaits (holding : Holding c b) (clean : 0 ∉ b) (room : b.length < 65536) (begins : postMethod <+: b)
    (absent : ¬ emptyLine <:+: b) : httpRecv c nBuffersize = some (.refused c nBuffersize) := by
  simp only [httpRecvPost holding clean room begins,recvRequest,List.drop_zero,strstrMissing absent]

def nextPost (rest : Bytes) : Nat := (strstr rest postMethod).getD rest.length

theorem nextPostInside (rest : Bytes) : nextPost rest ≤ rest.length := strstrInside

theorem holdingClears (holding : Holding c b) (room : b.length < 65536) :
    fill 0 c.nDataLength.toNat 0 c.pRecvBuffer = some (table 0 65536 []) := by
  rw [holding.block,holding.stored]
  exact tableClear (by omega)

theorem holdingMoves (holding : Holding c b) (room : b.length < 65536) (processed : Nat)
    (inside : processed ≤ b.length) :
    (memmove 0 (0 + processed) (b.length - processed) c.pRecvBuffer).bind (fill (b.length - processed) (processed + 0) 0) =
      some (table 0 65536 (b.drop processed)) := by
  have moved := @tableDrop Byte 0 65536 b processed inside (Nat.le_of_lt room)
  rwa [holding.block,Nat.zero_add]

theorem httpRecvTakes (holding : Holding c b) (clean : 0 ∉ b) (room : b.length < 65536) {header before rest : Bytes}
    (whole : b = header ++ rest) (begins : postMethod <+: header) (ends : First header emptyLine before [])
    (carries : contentLength <:+: header) :
    if nBuffersize < nextPost rest then httpRecv c nBuffersize = some (.refused c nBuffersize)
    else ∃ c', httpRecv c nBuffersize = some ⟨0,rest.take (nextPost rest),nextPost rest,c'⟩ ∧
      Holding c' (rest.drop (nextPost rest)) := by
  have inside := nextPostInside rest
  have headerLength : header.length = before.length + 4 := by
    rw [ends.whole,List.append_nil,List.length_append]
    rfl
  have length : b.length = before.length + 4 + rest.length := by rw [whole,List.length_append,headerLength]
  have empty : strstr b emptyLine = some before.length := by
    have first := ends.append rest
    rw [← whole] at first
    exact strstrFound first
  have json : b.drop (before.length + 4) = rest := by rw [whole,← headerLength,List.drop_left]
  have listed : strstr b contentLength ≠ none := by
    obtain ⟨_,_,_,found⟩ := strstrOccurs (carries.trans (whole ▸ List.infix_append' [] header rest))
    rw [found]
    exact Option.some_ne_none _
  have left : b.length - (before.length + 4) = rest.length := by omega
  have next : (strstr rest postMethod).getD rest.length = nextPost rest := rfl
  have received : ¬ (((before.length + 4 : Nat) : Int) > c.nDataLength ∨ before.length + 4 > b.length) := by
    rw [holding.stored]
    omega
  rw [httpRecvPost holding clean room (whole ▸ begins.trans (List.prefix_append header rest))]
  simp only [recvRequest,List.drop_zero,empty,json,left,next,if_neg received]
  by_cases small : nBuffersize < nextPost rest
  · rw [if_pos small,if_pos (.inr small)]
  · rw [if_neg small,if_neg (not_or.mpr ⟨listed,small⟩)]
    split
    · rw [holdingClears holding room,List.drop_of_length_le (by omega)]
      exact ⟨_,rfl,holding.valid,rfl,rfl,holding.size⟩
    · have moved := holdingMoves holding room (before.length + 4 + nextPost rest) (by omega)
      have remained : b.drop (before.length + 4 + nextPost rest) = rest.drop (nextPost rest) := by
        rw [← List.drop_drop,json]
      rw [remained] at moved
      refine ⟨_,congrArg (Option.map _) moved,holding.valid,rfl,?_,holding.size⟩
      rw [← remained,List.length_drop]

end Holding

end JokeDse
