import Precizer.Digest.Sha512
import Precizer.General.BlockHash

/-! # SHA-512 of a message and of a stream of pieces

The digest of a message is defined by the standard padding over the absorbed
blocks. A context reached by initialisation and accepted updates represents exactly
the bytes it was given; its finalisation is the digest of these bytes.
-/
namespace Precizer.Digest
open General

/-- One bit, zeros, and the 128-bit length up to the next block boundary. -/
def standardPadding (len : ℕ) : List UInt8 :=
  0x80 :: (List.replicate ((239 - len % 128) % 128) 0 ++ beBytes 16 (8 * len))

def sha512 (message : List UInt8) : Sha512Digest :=
  storeState (absorb sha512Compress 128 initialState (message ++ standardPadding message.length)).1

/-- The bytes of the buffer that are in use. -/
def SHA512Context.pending (md : SHA512Context) : List UInt8 := md.buf.toList.take md.curlen

/-- The context holds the chaining state, the tail and the counter of the message. -/
structure Represents (md : SHA512Context) (message : List UInt8) : Prop where
  stream : absorb sha512Compress 128 initialState message = (md.state,md.pending)
  curlen : md.curlen = message.length % 128
  length : md.length.toNat = 8 * (message.length - message.length % 128)

theorem fillBuffer_take (buf : Vector UInt8 128) {c : ℕ} (bytes : List UInt8) (h : c + bytes.length ≤ 128) :
    (fillBuffer buf c bytes).toList.take (c + bytes.length) = buf.toList.take c ++ bytes := by
  apply List.ext_getElem
  · simp
    omega
  · intro i hi hi'
    simp only [List.length_take,Vector.length_toList] at hi
    by_cases hc : c ≤ i
    · rw [List.getElem_append_right (by simp; omega)]
      simp [fillBuffer,hc,List.getD_eq_getElem?_getD,List.getElem?_eq_getElem (show i - c < bytes.length by omega)]
      congr 1
      omega
    · rw [List.getElem_append_left (by simp; omega)]
      simp [fillBuffer,hc]

theorem fillBuffer_full (buf : Vector UInt8 128) {c : ℕ} (bytes : List UInt8) (h : c + bytes.length = 128) :
    (fillBuffer buf c bytes).toList = buf.toList.take c ++ bytes := by
  rw [← fillBuffer_take _ _ h.le,h,List.take_of_length_le (by simp)]

/-- The context continues a stream that was in the first context: the bytes were absorbed
behind the ones it held in its buffer. -/
structure Continues (md₀ md : SHA512Context) (m : List UInt8) : Prop where
  inUse : md₀.curlen < 128
  stream : absorb sha512Compress 128 md₀.state (md₀.pending ++ m) = (md.state,md.pending)
  curlen : md.curlen = (md₀.curlen + m.length) % 128
  length : md.length.toNat =
    md₀.length.toNat + 8 * (md₀.curlen + m.length - (md₀.curlen + m.length) % 128)

/-- The bit counter can hold the stream with so many bytes. -/
def SHA512Context.Fits (md : SHA512Context) (n : ℕ) : Prop := md.length.toNat + 8 * (md.curlen + n) < 2 ^ 64

private theorem pending_length {md : SHA512Context} (h : md.curlen < 128) : md.pending.length = md.curlen := by
  simp only [SHA512Context.pending,List.length_take,Vector.length_toList]
  omega

theorem Continues.refl {md : SHA512Context} (h : md.curlen < 128) : Continues md md [] where
  inUse := h
  stream := by rw [List.append_nil,absorb_short (by rw [pending_length h]; exact h)]
  curlen := by simpa using (Nat.mod_eq_of_lt h).symm
  length := by
    simp only [List.length_nil,Nat.add_zero,Nat.mod_eq_of_lt h]
    omega

theorem Continues.curlen_lt {md₀ md : SHA512Context} {m : List UInt8} (h : Continues md₀ md m) :
    md.curlen < 128 := by
  rw [h.curlen]
  exact Nat.mod_lt _ (by omega)

theorem represents_iff (start md : SHA512Context) (m : List UInt8) :
    Represents md m ↔ Continues (sha512Init start) md m := by
  have hpending : (sha512Init start).pending = [] := by simp [sha512Init,SHA512Context.pending]
  have hcurlen : (sha512Init start).curlen = 0 := rfl
  have hlength : (sha512Init start).length.toNat = 0 := rfl
  have hstate : (sha512Init start).state = initialState := rfl
  constructor
  · rintro ⟨hstream,hcur,hlen⟩
    refine ⟨by rw [hcurlen]; omega,?_,?_,?_⟩
    · rw [hpending,hstate]
      exact hstream
    · rw [hcurlen,Nat.zero_add]
      exact hcur
    · rw [hcurlen,hlength,Nat.zero_add,Nat.zero_add]
      exact hlen
  · rintro ⟨-,hstream,hcur,hlen⟩
    rw [hpending,hstate] at hstream
    rw [hcurlen,Nat.zero_add] at hcur
    rw [hcurlen,hlength,Nat.zero_add,Nat.zero_add] at hlen
    exact ⟨hstream,hcur,hlen⟩

theorem init_represents (md : SHA512Context) : Represents (sha512Init md) [] :=
  (represents_iff md _ []).mpr (.refl (Nat.zero_lt_succ _))

section Turn

variable {md₀ md : SHA512Context} {m : List UInt8}

/-- A direct block compression extends the stream by the block. -/
private theorem block_continues {block : List UInt8} (h : Continues md₀ md m) (hc : md.curlen = 0)
    (hb : block.length = 128) (hfit : md₀.Fits (m.length + block.length)) :
    Continues md₀ { md with state := sha512Compress md.state block, length := md.length + 1024 }
      (m ++ block) := by
  refine ⟨h.inUse,?_,?_,?_⟩
  · have hpend : md.pending = [] := by simp [SHA512Context.pending,hc]
    rw [← List.append_assoc,absorb_append,h.stream,hpend,List.nil_append,← List.append_nil block,
      absorb_cons_block (by omega) hb,absorb_nil]
    simp [SHA512Context.pending,hc]
  · have := h.curlen
    simp only [List.length_append]
    omega
  · have hl := h.length
    have hcur := h.curlen
    unfold SHA512Context.Fits at hfit
    simp only [List.length_append,UInt64.toNat_add,UInt64.reduceToNat]
    omega

private theorem fill_continues (h : Continues md₀ md m) (piece : List UInt8)
    (hb : md.curlen + piece.length = 128) (hfit : md₀.Fits (m.length + piece.length)) :
    Continues md₀ { md with
        buf := fillBuffer md.buf md.curlen piece
        state := sha512Compress md.state (fillBuffer md.buf md.curlen piece).toList
        length := md.length + 1024
        curlen := 0 } (m ++ piece) := by
  refine ⟨h.inUse,?_,?_,?_⟩
  · have hlen := pending_length h.curlen_lt
    rw [← List.append_assoc,absorb_append,h.stream,← List.append_nil (md.pending ++ piece),
      absorb_cons_block (by omega) (by simp; omega),absorb_nil,fillBuffer_full _ _ hb]
    simp [SHA512Context.pending]
  · have := h.curlen
    simp only [List.length_append]
    omega
  · have hl := h.length
    have hcur := h.curlen
    unfold SHA512Context.Fits at hfit
    simp only [List.length_append,UInt64.toNat_add,UInt64.reduceToNat]
    omega

private theorem extend_continues (h : Continues md₀ md m) (piece : List UInt8)
    (hb : md.curlen + piece.length < 128) :
    Continues md₀ { md with
        buf := fillBuffer md.buf md.curlen piece
        curlen := md.curlen + piece.length } (m ++ piece) := by
  refine ⟨h.inUse,?_,?_,?_⟩
  · have hlen := pending_length h.curlen_lt
    rw [← List.append_assoc,absorb_append,h.stream,absorb_short (by simp; omega)]
    simp [SHA512Context.pending,fillBuffer_take _ _ hb.le]
  · have := h.curlen
    simp only [List.length_append]
    omega
  · have hl := h.length
    have hcur := h.curlen
    simp only [List.length_append,hl]
    omega

end Turn

theorem updateLoop_continues (md : SHA512Context) (hlt : md.curlen < 128) (input : List UInt8)
    {md₀ : SHA512Context} {m : List UInt8} (h : Continues md₀ md m) (hfit : md₀.Fits (m.length + input.length)) :
    Continues md₀ (updateLoop md hlt input) (m ++ input) := by
  have hmono {n n' : ℕ} (hle : n ≤ n') (hn : md₀.Fits n') : md₀.Fits n := by
    unfold SHA512Context.Fits at hn ⊢
    omega
  fun_induction updateLoop md hlt input generalizing m with
  | case1 md => simpa using h
  | case2 md hlt input hin hblock ih =>
    have htake : (input.take 128).length = 128 := by simp; omega
    have hstep := block_continues h hblock.1 htake (hmono (by omega) hfit)
    have hrest := ih hstep (hmono (by simp; omega) hfit)
    rwa [List.append_assoc,List.take_append_drop] at hrest
  | case3 md hlt input hin hblock n buf hfull =>
    rename_i ih
    have htake : (input.take n).length = n := by simp [n]
    have hstep := fill_continues h (input.take n) (by omega) (hmono (by omega) hfit)
    have hrest := ih hstep (hmono (by simp; omega) hfit)
    rwa [List.append_assoc,List.take_append_drop] at hrest
  | case4 md hlt input hin hblock n buf hfull =>
    rename_i ih
    have htake : (input.take n).length = n := by simp [n]
    have hstep := extend_continues h (input.take n) (by omega)
    have hrest := ih (by simpa only [htake] using hstep) (hmono (by simp; omega) hfit)
    rwa [List.append_assoc,List.take_append_drop] at hrest

/-- The length check accepts exactly while the bit counter can hold the whole stream. -/
theorem check_continues {md₀ md : SHA512Context} {m : List UInt8} (h : Continues md₀ md m) (inlen : ℕ) :
    sha512CheckAvailableBytes md inlen = .cryptOk ↔ md₀.Fits (m.length + inlen) := by
  have hl := h.length
  have hcur := h.curlen
  have hmd := md.length.toNat_lt
  have hmd₀ := md₀.length.toNat_lt
  unfold sha512CheckAvailableBytes maxBitCount SHA512Context.Fits
  dsimp only
  split
  · omega
  · split
    · simp only [reduceCtorEq,false_iff]
      omega
    · split
      · simp only [reduceCtorEq,false_iff]
        omega
      · simp only [true_iff]
        omega

theorem check_represents {md : SHA512Context} {m : List UInt8} (h : Represents md m) (inlen : ℕ) :
    sha512CheckAvailableBytes md inlen = .cryptOk ↔ 8 * (m.length + inlen) < 2 ^ 64 := by
  rw [check_continues ((represents_iff zeroContext md m).mp h)]
  simp [SHA512Context.Fits,sha512Init]

theorem update_ok {md md' : SHA512Context} {input : List UInt8}
    (h : sha512Update md input = (.cryptOk,md')) :
    sha512CheckAvailableBytes md input.length = .cryptOk ∧
      ∃ hlt : md.curlen < 128, md' = updateLoop md hlt input := by
  unfold sha512Update at h
  cases hcheck : sha512CheckAvailableBytes md input.length with
  | cryptOk =>
    have hlt : md.curlen < 128 := by
      unfold sha512CheckAvailableBytes at hcheck
      split at hcheck
      · cases hcheck
      · omega
    simp only [hcheck,hlt,↓reduceDIte,Prod.mk.injEq,true_and] at h
    exact ⟨rfl,hlt,h.symm⟩
  | cryptInvalidArg => simp [hcheck] at h
  | cryptHashOverflow => simp [hcheck] at h

theorem update_continues {md₀ md md' : SHA512Context} {m input : List UInt8} (h : Continues md₀ md m)
    (hupd : sha512Update md input = (.cryptOk,md')) : Continues md₀ md' (m ++ input) := by
  obtain ⟨hcheck,hlt,rfl⟩ := update_ok hupd
  exact updateLoop_continues md hlt input h ((check_continues h _).mp hcheck)

theorem update_represents {md md' : SHA512Context} {m input : List UInt8} (h : Represents md m)
    (hupd : sha512Update md input = (.cryptOk,md')) : Represents md' (m ++ input) :=
  (represents_iff zeroContext md' _).mpr (update_continues ((represents_iff zeroContext md m).mp h) hupd)

private theorem bitCount_eq {md : SHA512Context} {m : List UInt8} (h : Represents md m)
    (hfit : 8 * m.length < 2 ^ 64) : (md.length + UInt64.ofNat md.curlen * 8).toNat = 8 * m.length := by
  have hl := h.length
  have hcur := h.curlen
  simp only [UInt64.toNat_add,UInt64.toNat_mul,UInt64.reduceToNat,UInt64.toNat_ofNat']
  omega

private theorem padding_short {len : ℕ} (h : len % 128 < 112) (hfit : 8 * len < 2 ^ 64) :
    standardPadding len =
      0x80 :: (List.replicate (120 - (len % 128 + 1)) 0 ++ beBytes 8 (8 * len)) := by
  have hzeros : (239 - len % 128) % 128 + 8 = 120 - (len % 128 + 1) := by omega
  rw [standardPadding,show (16 : ℕ) = 8 + 8 from rfl,beBytes_add_of_lt 8 (by simpa using hfit),
    ← List.append_assoc,← List.replicate_add,hzeros]

private theorem padding_long {len : ℕ} (h : 112 ≤ len % 128) (hfit : 8 * len < 2 ^ 64) :
    standardPadding len =
      0x80 :: (List.replicate (128 - (len % 128 + 1)) 0 ++
        (List.replicate 120 0 ++ beBytes 8 (8 * len))) := by
  have hlt : len % 128 < 128 := Nat.mod_lt _ (by omega)
  have hzeros : (239 - len % 128) % 128 + 8 = (128 - (len % 128 + 1)) + 120 := by omega
  rw [standardPadding,show (16 : ℕ) = 8 + 8 from rfl,beBytes_add_of_lt 8 (by simpa using hfit),
    ← List.append_assoc,← List.replicate_add,hzeros,List.replicate_add,List.append_assoc]

theorem final_ok {md md' : SHA512Context} {digest : Sha512Digest}
    (h : sha512Final md = (.cryptOk,md',digest)) : sha512CheckAvailableBytes md 0 = .cryptOk := by
  unfold sha512Final at h
  cases hcheck : sha512CheckAvailableBytes md 0 with
  | cryptOk => rfl
  | cryptInvalidArg => simp [hcheck] at h
  | cryptHashOverflow => simp [hcheck] at h

theorem closingBlock (buf : Vector UInt8 128) {c : ℕ} (length : ℕ) (hc : c ≤ 120) :
    (fillBuffer (fillBuffer buf c (List.replicate (120 - c) 0)) 120 (beBytes 8 length)).toList =
      buf.toList.take c ++ (List.replicate (120 - c) 0 ++ beBytes 8 length) := by
  have hzeros : c + (List.replicate (120 - c) (0 : UInt8)).length = 120 := by
    rw [List.length_replicate]
    omega
  have htake := fillBuffer_take buf (c := c) (List.replicate (120 - c) 0) (by omega)
  rw [hzeros] at htake
  rw [fillBuffer_full _ _ (by rw [beBytes_length]),htake,List.append_assoc]

theorem markedBuffer {md : SHA512Context} (hlt : md.curlen < 128) :
    (fillBuffer md.buf md.curlen [0x80]).toList.take (md.curlen + 1) = md.pending ++ [0x80] :=
  fillBuffer_take _ [0x80] (by simp only [List.length_singleton]; omega)

/-- With room for the length field one closing block ends the message. -/
private theorem absorb_padding_short {md : SHA512Context} {m : List UInt8} (h : Represents md m)
    (hroom : md.curlen < 112) (hfit : 8 * m.length < 2 ^ 64) :
    absorb sha512Compress 128 initialState (m ++ standardPadding m.length) =
      (sha512Compress md.state (fillBuffer (fillBuffer (fillBuffer md.buf md.curlen [0x80]) (md.curlen + 1)
        (List.replicate (120 - (md.curlen + 1)) 0)) 120 (beBytes 8 (8 * m.length))).toList,[]) := by
  have hcur := h.curlen
  have hmark := @markedBuffer md (by omega)
  have hblock := closingBlock (fillBuffer md.buf md.curlen [0x80]) (c := md.curlen + 1)
    (8 * m.length) (by omega)
  rw [hmark,List.append_assoc,List.singleton_append] at hblock
  rw [padding_short (by omega) hfit,← hcur,absorb_fill (by omega),h.stream,hblock]
  have htail := @pending_length md (by omega)
  simp only [h.stream,List.length_append,List.length_cons,List.length_replicate,beBytes_length]
  omega

/-- Without room the zeros fill this block and the length field goes into another one. -/
private theorem absorb_padding_long {md : SHA512Context} {m : List UInt8} (h : Represents md m)
    (hroom : 112 ≤ md.curlen) (hfit : 8 * m.length < 2 ^ 64) (buf : Vector UInt8 128) :
    absorb sha512Compress 128 initialState (m ++ standardPadding m.length) =
      (sha512Compress
        (sha512Compress md.state (fillBuffer (fillBuffer md.buf md.curlen [0x80]) (md.curlen + 1)
          (List.replicate (128 - (md.curlen + 1)) 0)).toList)
        (fillBuffer (fillBuffer buf 0 (List.replicate (120 - 0) 0)) 120
          (beBytes 8 (8 * m.length))).toList,[]) := by
  have hcur := h.curlen
  have htail := @pending_length md (by omega)
  have hlt : md.curlen < 128 := by omega
  have hmark := markedBuffer hlt
  have hfirst := fillBuffer_full (fillBuffer md.buf md.curlen [0x80]) (c := md.curlen + 1)
    (List.replicate (128 - (md.curlen + 1)) 0) (by rw [List.length_replicate]; omega)
  rw [hmark,List.append_assoc,List.singleton_append] at hfirst
  have hlast := closingBlock buf (c := 0) (8 * m.length) (by omega)
  rw [List.take_zero,List.nil_append,Nat.sub_zero] at hlast
  rw [padding_long (by omega) hfit,← hcur,absorb_append,h.stream,← List.cons_append,← List.append_assoc,
    absorb_cons_block (by omega)]
  · rw [← List.append_nil (List.replicate 120 0 ++ _),absorb_cons_block (by omega),absorb_nil,hfirst,
      Nat.sub_zero,hlast]
    simp only [List.length_append,List.length_replicate,beBytes_length]
  · simp only [List.length_append,List.length_cons,List.length_replicate]
    omega

theorem final_represents {md md' : SHA512Context} {m : List UInt8} {digest : Sha512Digest}
    (h : Represents md m) (hfin : sha512Final md = (.cryptOk,md',digest)) : digest = sha512 m := by
  have hcheck := final_ok hfin
  have hfit : 8 * m.length < 2 ^ 64 := (check_represents h 0).mp hcheck
  have hbits := bitCount_eq h hfit
  unfold sha512Final at hfin
  simp only [hcheck,Prod.mk.injEq,true_and] at hfin
  obtain ⟨-,hdigest⟩ := hfin
  rw [← hdigest,hbits,sha512]
  by_cases hlong : 112 < md.curlen + 1
  · simp only [hlong,↓reduceIte]
    rw [absorb_padding_long h (by omega) hfit]
  · simp only [hlong,↓reduceIte]
    rw [absorb_padding_short h (by omega) hfit]

/-- The contexts reached by initialising and absorbing the bytes in some pieces. -/
inductive Streamed : SHA512Context → List UInt8 → Prop where
  | init (md : SHA512Context) : Streamed (sha512Init md) []
  | update {md md' : SHA512Context} {m piece : List UInt8} (h : Streamed md m)
      (hupd : sha512Update md piece = (.cryptOk,md')) : Streamed md' (m ++ piece)

theorem Streamed.represents {md : SHA512Context} {m : List UInt8} (h : Streamed md m) :
    Represents md m := by
  induction h with
  | init md => exact init_represents md
  | update h hupd ih => exact update_represents ih hupd

theorem Streamed.final {md md' : SHA512Context} {m : List UInt8} {digest : Sha512Digest}
    (h : Streamed md m) (hfin : sha512Final md = (.cryptOk,md',digest)) : digest = sha512 m :=
  final_represents h.represents hfin

theorem Represents.unique {md md' : SHA512Context} {m : List UInt8} (h : Represents md m)
    (h' : Represents md' m) :
    md.length = md'.length ∧ md.state = md'.state ∧ md.curlen = md'.curlen ∧ md.pending = md'.pending := by
  have hstream := h.stream.symm.trans h'.stream
  simp only [Prod.mk.injEq] at hstream
  refine ⟨?_,hstream.1,h.curlen.trans h'.curlen.symm,hstream.2⟩
  apply UInt64.toNat_inj.mp
  rw [h.length,h'.length]

end Precizer.Digest
