import Geryon.Protocol.Queries
import Geryon.Protocol.ReadMessage
import Geryon.Startup.Machine

/-!
# SQL batches

`CreateSQLBatch` of `internal/protocol/mssql/codec.go`, against the functions
that read a batch.  The reader looks for a token before the text, and the
writer puts none there: what is read is the text without its beginning.
-/

namespace Geryon.Wire.TDSCodec

open List UInt8
open Go (Source Str encodeRune)
open Startup (putBigEndian putLittleEndian)

/-- The string of a text. -/
def utf8 (text : List Char) : Str := text.flatMap fun ch => encodeRune ch.toNat

/-- What the loop of `CreateSQLBatch` makes of a text.  A character goes to
twice its place in the string, so that zeros follow one of several bytes. -/
def batchUnits (text : List Char) : List UInt8 :=
  text.flatMap fun ch =>
    putLittleEndian 2 ch.toNat ++ (encodeRune ch.toNat).tail.flatMap fun _ => [0, 0]

def createSQLBatch (text : List Char) : List UInt8 :=
  1 :: 1 :: putBigEndian 2 (8 + (utf8 text).length * 2) ++ [0, 0, 0, 0] ++ batchUnits text

/-- One `ReadMessage` of the batch gives a query with this text, which begins a
transaction if it begins with `BEGIN`. -/
def ReadBack (text : List Char) : Prop :=
  ∀ s : Source, s.bytes = createSQLBatch text → ∃ msg, (TDSCodec.readMessage s).1 = .ok msg ∧
    isQuery msg = true ∧ extractSQLBatchQuery msg = utf8 text ∧
      ∀ lib, Go.str "BEGIN" <+: utf8 text → isTransactionBegin lib msg = true

variable {r n : Nat} {ch : Char} {text : List Char} {msg : Message}

theorem length_encodeRune_mod_le : (encodeRune (r % 65536)).length ≤ (encodeRune r).length := by
  unfold encodeRune
  split_ifs <;> simp <;> omega

theorem zero_notMem_encodeRune (hr : r ≠ 0) : 0 ∉ encodeRune r := by
  have hne : ∀ n, n % 256 ≠ 0 → (0 : UInt8) ≠ .ofNat n := fun n hn h =>
    hn (by simpa using (congrArg toNat h).symm)
  unfold encodeRune
  split_ifs <;> simp only [mem_cons, not_mem_nil, or_false, not_or] <;> and_intros <;>
    first | decide | exact hne _ (by omega)

/-- Only an ASCII character has one byte. -/
theorem encodeRune_cases (r : Nat) :
    (r < 0x80 ∧ encodeRune r = [.ofNat r]) ∨ ∃ b b' bs, encodeRune r = b :: b' :: bs := by
  unfold encodeRune
  split_ifs with h
  · exact .inl ⟨h, rfl⟩
  all_goals exact .inr ⟨_, _, _, rfl⟩

theorem utf8_cons : utf8 (ch :: text) = encodeRune ch.toNat ++ utf8 text := rfl

theorem batchUnits_cons : batchUnits (ch :: text) = .ofNat ch.toNat :: .ofNat (ch.toNat / 256) ::
    ((encodeRune ch.toNat).tail.flatMap (fun _ => [0, 0]) ++ batchUnits text) := rfl

theorem length_decodeUnits_le (text : List Char) (n : Nat) :
    (decodeUnits ((batchUnits text).take n)).length ≤ (utf8 text).length := by
  induction text generalizing n with
  | nil => simp [batchUnits, decodeUnits]
  | cons ch text ih =>
    have hunit : littleEndian [.ofNat ch.toNat, .ofNat (ch.toNat / 256)] = ch.toNat % 65536 := by
      simp [littleEndian]
      omega
    have hmod := length_encodeRune_mod_le (r := ch.toNat)
    have hrest : (decodeUnits (((encodeRune ch.toNat).tail.flatMap (fun _ => [0, 0]) ++
        batchUnits text).take (n - 2))).length ≤ (utf8 text).length := by
      obtain ⟨-, h⟩ | ⟨b, b', bs, h⟩ := encodeRune_cases ch.toNat
      · simpa [h] using ih (n - 2)
      · rw [h]
        rcases n - 2 with _ | _ | n <;> simp [decodeUnits]
    rcases n with _ | _ | n
    · simp [decodeUnits]
    · simp [batchUnits, putLittleEndian, decodeUnits]
    · rw [batchUnits_cons, take_succ_cons, take_succ_cons, decodeUnits, hunit, utf8_cons,
        length_append]
      split
      · simp
      · rw [length_append]
        exact Nat.add_le_add hmod hrest

theorem extractSQLBatchQuery_cons {a b c : UInt8} {q : List UInt8}
    (hmsg : msg.payload = a :: b :: c :: q) (hlen : 5 ≤ q.length) (hzero : b = 0 ∨ c = 0) :
    extractSQLBatchQuery msg =
      decodeUnicode (if a = 0 then b :: c :: q else if b = 0 then c :: q else q) := by
  obtain ⟨d, q, rfl⟩ := exists_cons_of_length_pos (Nat.zero_lt_of_lt hlen)
  rw [extractSQLBatchQuery, hmsg, if_neg (by simp at hlen ⊢; omega)]
  by_cases ha : a = 0
  · simp [ha, findIdx?_cons]
  by_cases hb : b = 0
  · simp [ha, hb, findIdx?_cons]
  have hc := hzero.resolve_left hb
  simp [ha, hb, hc, findIdx?_cons]

/-- The text of a batch is not found, whatever part of the batch was read. -/
theorem extractSQLBatchQuery_ne (hnul : '\x00' ∉ ch :: text) (heven : n % 2 = 0)
    (hlen : msg.payload.length = n) (hpayload : msg.payload = (batchUnits (ch :: text)).take n) :
    extractSQLBatchQuery msg ≠ utf8 (ch :: text) := by
  intro h
  have hnonzero : ∀ c ∈ ch :: text, 0 ∉ encodeRune c.toNat := fun c hc =>
    zero_notMem_encodeRune fun h0 => hnul (by rwa [← Char.ofNat_toNat c, h0] at hc)
  have hzero : 0 ∉ utf8 (ch :: text) := by simpa [utf8] using hnonzero
  have hlonger : (utf8 text).length < (utf8 (ch :: text)).length := by
    obtain ⟨-, h⟩ | ⟨b, b', bs, h⟩ := encodeRune_cases ch.toNat <;>
      simp only [utf8_cons, h, length_append, length_cons] <;> omega
  by_cases hshort : n < 8
  · rw [extractSQLBatchQuery, if_pos (by omega)] at h
    simp [← h] at hlonger
  obtain ⟨n, rfl⟩ : ∃ k, n = k + 4 := ⟨n - 4, by omega⟩
  rw [batchUnits_cons] at hpayload
  rw [hpayload] at hlen
  obtain ⟨hascii, hch⟩ | ⟨b, b', bs, hch⟩ := encodeRune_cases ch.toNat
  · -- the zero is the upper half of the character, and the text after it is decoded
    rw [hch, tail_cons, flatMap_nil, nil_append, take_succ_cons, take_succ_cons] at hpayload hlen
    simp only [length_cons] at hlen
    obtain ⟨c, q, hq⟩ := exists_cons_of_length_pos (l := (batchUnits text).take (n + 2)) (by omega)
    have hfirst : ofNat ch.toNat ≠ 0 := fun h0 =>
      hnonzero ch mem_cons_self (by simp [hch, h0])
    have hsecond : ofNat (ch.toNat / 256) = 0 := by
      rw [Nat.div_eq_of_lt (by omega)]
      rfl
    have hrest := length_decodeUnits_le text (n + 2)
    rw [hq, length_cons] at hlen
    rw [extractSQLBatchQuery_cons (hq ▸ hpayload) (by omega) (.inl hsecond), if_neg hfirst,
      if_pos hsecond, decodeUnicode, if_neg (by rw [length_cons]; omega), ← hq] at h
    rw [h] at hrest
    omega
  · -- two zeros follow the character: they end the text or are in it
    simp only [hch, tail_cons, flatMap_cons, cons_append, take_succ_cons, length_cons]
      at hpayload hlen
    rw [extractSQLBatchQuery_cons hpayload (by rw [length_cons]; omega) (.inr rfl)] at h
    split_ifs at h
    · rw [decodeUnicode, if_pos (by simp only [length_cons]; omega)] at h
      exact hzero (h ▸ by simp)
    · rw [decodeUnicode, if_neg (by simp only [length_cons]; omega)] at h
      simp [← h, decodeUnits] at hlonger
    · rw [decodeUnicode, if_pos (by simp only [length_cons]; omega)] at h
      exact hzero (h ▸ mem_cons_self)

/-- The field of the length is even, also where it is too small for the length. -/
theorem even_of_payloadLen (h : payloadLen ((createSQLBatch text).take 8) = .ok n) : n % 2 = 0 := by
  have hfield : bigEndian ((((createSQLBatch text).take 8).drop 2).take 2) = n + 8 := by
    unfold payloadLen at h
    dsimp only at h
    split_ifs at h
    cases h
    omega
  change bigEndian [_, ofNat (8 + _ * 2)] = _ at hfield
  simp [bigEndian] at hfield
  omega

theorem not_readBack (hnul : '\x00' ∉ ch :: text) : ¬ ReadBack (ch :: text) := by
  intro h
  obtain ⟨msg, hmsg, -, hquery, -⟩ := h _ (Source.whole_bytes _)
  have hread : Wire.readMessage .msSQL (.whole (createSQLBatch (ch :: text))) = (.ok msg, _) :=
    Prod.ext hmsg rfl
  obtain ⟨n, hframe⟩ := readMessage_inv hread
  obtain ⟨msg', s', hread', hraw, -⟩ := readMessage_ok hframe
  obtain ⟨header, payload, hheader, rfl⟩ := readMessage_build hread
  rw [hread] at hread'
  cases hread'
  rw [Source.whole_bytes] at hframe hraw
  rw [build_raw] at hraw
  have hlen : payload.length = n := by
    have hboth := congrArg List.length hraw
    rw [length_append, hheader, length_take, Nat.min_eq_left hframe.length] at hboth
    omega
  have hpayload := congrArg (drop (headerLen .msSQL)) hraw
  rw [drop_left' hheader, drop_take, Nat.add_sub_cancel_left] at hpayload
  exact extractSQLBatchQuery_ne hnul (even_of_payloadLen hframe.payload) hlen hpayload hquery

theorem readBack_iff (text : List Char) (hnul : '\x00' ∉ text) : ReadBack text ↔ text = [] := by
  constructor
  · intro h
    cases text with
    | nil => rfl
    | cons ch text => exact absurd h (not_readBack hnul)
  · rintro rfl s hs
    have hframe : HasFrame .msSQL s.bytes 0 := hs ▸ ⟨rfl, by decide⟩
    refine ⟨_, readMessage_whole hframe (by rw [hs]; rfl), ?_, ?_, fun lib h => ?_⟩
    · rw [hs]
      rfl
    · rw [hs]
      rfl
    · exact absurd h (by decide)

theorem readBack_iff_select :
    '\x00' ∉ "SELECT 1".toList ∧ (ReadBack "SELECT 1".toList ↔ "SELECT 1".toList = []) :=
  ⟨by decide, readBack_iff _ (by decide)⟩

/-- The batch `BEGIN` is read as `EGIN`. -/
theorem begin_not_readBack : ¬ ReadBack "BEGIN".toList :=
  not_readBack (by decide)

end Geryon.Wire.TDSCodec
