import Geryon.Protocol.ReadMessage
import Geryon.Startup.MySQL
import Geryon.Startup.PostgreSQL

/-!
# Messages that are read back

The functions that build messages of a start-up, against the functions that
read them.
-/

namespace Geryon.Startup

open List Wire.PGCodec Function

theorem untilNull_append {s : Bytes} (hs : 0 ∉ s) (rest : Bytes) :
    untilNull (s ++ 0 :: rest) = s := by
  rw [untilNull, takeWhile_append_of_pos, takeWhile_cons_of_neg (by simp), append_nil]
  intro x hx
  exact decide_eq_true fun h => hs (h ▸ hx)

/-! ## The handshake of a MySQL server -/

def createHandshakeV10 (serverVersion : Bytes) (connID : UInt32) (authData : Bytes)
    (capabilityFlags : UInt32) : Bytes :=
  let part1 := if 8 ≤ authData.length then authData.take 8 else replicate 8 0
  let part2 := if 20 ≤ authData.length then (authData.drop 8).take 12 else replicate 12 0
  10 :: serverVersion ++ 0 :: putLittleEndian 4 connID.toNat ++ part1 ++ 0 ::
    putLittleEndian 2 capabilityFlags.toNat ++ 255 :: putLittleEndian 2 0x0002 ++
    putLittleEndian 2 (capabilityFlags.toNat / 65536) ++ 21 :: replicate 10 0 ++ part2 ++
    0 :: ascii "mysql_native_password" ++ [0]

/-- Where the scramble is in a handshake: in two parts, with fields of fixed
lengths before and between them. -/
theorem extractMySQLScramble_layout (version id part1 flags reserved part2 rest : Bytes)
    (hversion : 0 ∉ version) (hid : id.length = 4) (hpart1 : part1.length = 8)
    (hflags : flags.length = 8) (hreserved : reserved.length = 10) (hpart2 : part2.length = 12) :
    extractMySQLScramble (10 :: (version ++ 0 :: (id ++ (part1 ++ (flags ++ 21 ::
      (reserved ++ (part2 ++ rest))))))) = pure (part1 ++ part2) := by
  have hdrop : ∀ (k : Nat) (tail : Bytes),
      (version ++ 0 :: (id ++ tail)).drop (version.length + 5 + k) = tail.drop k := by
    intro k tail
    have hlen : version.length + 5 + k = (version ++ 0 :: id).length + k := by simp [hid]
    rw [hlen, show version ++ 0 :: (id ++ tail) = (version ++ 0 :: id) ++ tail by simp,
      drop_length_add_append]
  have hlength : (10 :: (version ++ 0 :: (id ++ (part1 ++ (flags ++ 21 ::
      (reserved ++ (part2 ++ rest))))))).length = version.length + 45 + rest.length := by
    simp only [length_cons, length_append, hid, hpart1, hflags, hreserved, hpart2]
    omega
  simp only [extractMySQLScramble, hlength, headD_cons, drop_succ_cons, drop_zero,
    untilNull_append hversion]
  rw [if_neg (by omega), if_neg (by simp), if_neg (by omega), if_neg (by omega)]
  simp only [Nat.add_assoc]
  rw [show 1 + (version.length + 20) = version.length + 5 + 16 by omega,
    show 1 + (version.length + 4) = version.length + 5 + 0 by omega,
    show 1 + (version.length + 31) = version.length + 5 + 27 by omega, hdrop, hdrop, hdrop]
  simp [drop_append, take_append, drop_of_length_le, take_of_length_le, hpart1, hflags, hreserved,
    hpart2]

theorem extractMySQLScramble_created (version : Bytes) (connID flags : UInt32) (id : Nat)
    (s : Bytes) (hversion : 0 ∉ version) (hs : s.length = 20) :
    extractMySQLScramble (createHandshakeV10 version connID s flags) = pure s ∧
      extractMySQLScramble (createMySQLHandshake id s) = pure s := by
  have hpart2 : (s.drop 8).take 12 = s.drop 8 := take_of_length_le (by simp [hs])
  have hread := fun version id flags h hid hflags => extractMySQLScramble_layout version id
    (s.take 8) flags (replicate 10 0) (s.drop 8) (0 :: ascii "mysql_native_password" ++ [0]) h hid
    (by simp [hs]) hflags (by simp) (by simp [hs])
  constructor
  · have h := hread version (putLittleEndian 4 connID.toNat)
      (0 :: putLittleEndian 2 flags.toNat ++ 255 :: putLittleEndian 2 0x0002 ++
        putLittleEndian 2 (flags.toNat / 65536)) hversion (by simp) (by simp)
    simpa [createHandshakeV10, hs, hpart2] using h
  · have h := hread (ascii "5.7.42-geryon") (putLittleEndian 4 id)
      (0 :: putLittleEndian 2 0x85a6 ++ 255 :: putLittleEndian 2 0x0002 ++
        putLittleEndian 2 0x800f) (by decide) (by simp) (by simp)
    simpa [createMySQLHandshake, hs, hpart2] using h

/-- A scramble of zeros is not taken for the end of the string before it. -/
theorem extractMySQLScramble_created_zeros :
    (0 : UInt8) ∉ ascii "8.0.36" ∧ (replicate 20 (0 : UInt8)).length = 20 ∧
      extractMySQLScramble (createHandshakeV10 (ascii "8.0.36") 7 (replicate 20 0) 0) =
        pure (replicate 20 0) :=
  ⟨by decide, rfl, (extractMySQLScramble_created _ 7 0 7 _ (by decide) rfl).1⟩

/-! ## Messages of PostgreSQL -/

/-- `CreateAuthenticationMD5Password`.  The length does not count the salt. -/
def createAuthenticationMD5Password (salt : Bytes) : Bytes :=
  'R'.toUInt8 :: putBigEndian 4 8 ++ putBigEndian 4 5 ++ salt

/-- A call of a function that builds a message. -/
inductive Builder where
  | passwordMessage (password : Bytes)
  | scramResponse (mechanism data : Bytes)
  | authenticationMD5Password (salt : Bytes) (hsalt : salt.length = 4)
  | authenticationSCRAM
  | authenticationSASLContinue (challenge : Bytes)
  | authenticationSASLFinal (data : Bytes)
  | errorResponse (code message : Bytes)
  | parameterStatus (name value : Bytes)

namespace Builder

/-- The bytes that it builds.  Texts are byte strings, as they are in Go. -/
def output : Builder → Bytes
  | passwordMessage password => createPasswordMessage password
  | scramResponse mechanism data => createSCRAMResponse mechanism data
  | authenticationMD5Password salt _ => createAuthenticationMD5Password salt
  | authenticationSCRAM => createAuthenticationSCRAM
  | authenticationSASLContinue challenge => createAuthenticationSASLContinue challenge
  | authenticationSASLFinal data => createAuthenticationSASLFinal data
  | errorResponse code message =>
    pgMessage 'E' (ascii "SERROR" ++ 0 :: ascii "C" ++ code ++ 0 :: ascii "M" ++ message ++ [0, 0])
  | parameterStatus name value => pgMessage 'S' (name ++ 0 :: value ++ [0])

/-- The type and the payload that PostgreSQL prescribes for the message. -/
def intended : Builder → Char × Bytes
  | passwordMessage password => ('p', password ++ [0])
  | scramResponse mechanism data => ('p', mechanism ++ 0 :: putBigEndian 4 data.length ++ data)
  | authenticationMD5Password salt _ => ('R', putBigEndian 4 5 ++ salt)
  | authenticationSCRAM =>
    ('R', putBigEndian 4 10 ++ (ascii "SCRAM-SHA-256" ++ 0 :: ascii "SCRAM-SHA-256-PLUS" ++ [0, 0]))
  | authenticationSASLContinue challenge => ('R', putBigEndian 4 11 ++ challenge)
  | authenticationSASLFinal data => ('R', putBigEndian 4 12 ++ data)
  | errorResponse code message =>
    ('E', ascii "SERROR" ++ 0 :: ascii "C" ++ code ++ 0 :: ascii "M" ++ message ++ [0, 0])
  | parameterStatus name value => ('S', name ++ 0 :: value ++ [0])

/-- One `ReadMessage`, from any reader that has these bytes, takes them all and
returns the message that was meant. -/
def WellFramed (b : Builder) : Prop :=
  ∀ s : Go.Source, s.bytes = b.output → ∃ msg, (Wire.PGCodec.readMessage s).1 = .ok msg ∧
    msg.msgType = b.intended.1.toUInt8 ∧ msg.payload = b.intended.2 ∧ msg.raw = b.output

/-- The builders that count what they write, and write what they count. -/
def sound : Builder → Bool
  | authenticationMD5Password .. | authenticationSCRAM => false
  | _ => true

theorem output_of_sound {b : Builder} (h : b.sound = true) :
    b.output = pgMessage b.intended.1 b.intended.2 := by
  cases b
  case authenticationMD5Password | authenticationSCRAM => cases h
  all_goals rfl

end Builder

theorem hasFrame_pgMessage {c : Char} {payload : Bytes}
    (h : payload.length ≤ Wire.PGCodec.maxPayloadLen) :
    Wire.HasFrame .postgreSQL (pgMessage c payload) payload.length := by
  have hmax : maxPayloadLen = 16777216 := rfl
  have hlt : 4 + payload.length < valuesOf 4 := by
    have hvalues : valuesOf 4 = 4294967296 := rfl
    omega
  constructor
  · show payloadLen _ = _
    simp only [Wire.headerLen, pgMessage, cons_append, take_succ_cons,
      take_left' (length_putBigEndian 4 _), payloadLen, tail_cons, bigEndian_put hlt]
    rw [if_neg (by omega), if_neg (by omega), if_neg (by omega)]
    congr 1
    omega
  · simp [pgMessage, Wire.headerLen]
    omega

theorem readMessage_pgMessage {c : Char} {payload : Bytes} {s : Go.Source}
    (h : payload.length ≤ Wire.PGCodec.maxPayloadLen) (hs : s.bytes = pgMessage c payload) :
    ∃ msg, (Wire.PGCodec.readMessage s).1 = .ok msg ∧ msg.msgType = c.toUInt8 ∧
      msg.payload = payload ∧ msg.raw = pgMessage c payload := by
  have hread := Wire.readMessage_whole (hs ▸ hasFrame_pgMessage h)
    (by simp [hs, pgMessage, Wire.headerLen]; omega)
  refine ⟨_, hread, ?_, ?_, ?_⟩
  · simp [hs, pgMessage, Wire.headerLen, Wire.build, build]
  · simp [hs, pgMessage, Wire.headerLen, Wire.build, build, drop_left']
  · rw [Wire.build_raw, take_append_drop, hs]

namespace Builder

/-- The four bytes of the salt are left over. -/
theorem not_wellFramed_md5 {salt : Bytes} {hsalt : salt.length = 4} :
    ¬ (authenticationMD5Password salt hsalt).WellFramed := by
  intro h
  obtain ⟨msg, hmsg, -, -, hraw⟩ := h _ (Go.Source.whole_bytes _)
  have hframe : Wire.HasFrame .postgreSQL
      (Go.Source.whole (createAuthenticationMD5Password salt)).bytes 4 := by
    rw [Go.Source.whole_bytes]
    exact ⟨rfl, by simp [createAuthenticationMD5Password, Wire.headerLen]; omega⟩
  obtain ⟨msg', s', hread, hraw', -⟩ := Wire.readMessage_ok hframe
  have hsame : msg = msg' := by
    have hmsg' := congrArg Prod.fst hread
    exact Except.ok.inj (hmsg.symm.trans hmsg')
  have hlen := congrArg length (hraw'.symm.trans (hsame ▸ hraw))
  simp [output, createAuthenticationMD5Password, Wire.headerLen, hsalt] at hlen

/-- The code of the authentication is missing. -/
theorem not_wellFramed_scram : ¬ authenticationSCRAM.WellFramed := by
  intro h
  obtain ⟨msg, hmsg, -, hpayload, -⟩ := h _ (Go.Source.whole_bytes _)
  obtain ⟨msg', hmsg', -, hpayload', -⟩ :=
    readMessage_pgMessage (by decide) (Go.Source.whole_bytes createAuthenticationSCRAM)
  have hsame : msg = msg' := Except.ok.inj (hmsg.symm.trans hmsg')
  have hlen := congrArg length (hpayload.symm.trans (hsame ▸ hpayload'))
  exact absurd hlen (by decide)

theorem wellFramed_iff (b : Builder) (hsize : b.intended.2.length ≤ Wire.PGCodec.maxPayloadLen) :
    b.WellFramed ↔ b.sound = true := by
  constructor
  · intro h
    cases b
    case authenticationMD5Password => exact absurd h not_wellFramed_md5
    case authenticationSCRAM => exact absurd h not_wellFramed_scram
    all_goals rfl
  · intro h s hs
    rw [output_of_sound h] at hs ⊢
    exact readMessage_pgMessage hsize hs

theorem wellFramed_iff_secret :
    (passwordMessage (ascii "secret")).intended.2.length ≤ Wire.PGCodec.maxPayloadLen ∧
      ((passwordMessage (ascii "secret")).WellFramed ↔
        (passwordMessage (ascii "secret")).sound = true) :=
  ⟨by decide, wellFramed_iff _ (by decide)⟩

/-- A request for an MD5 password, and the one for SCRAM. -/
theorem authentication_not_wellFramed : ¬ (authenticationMD5Password [1, 2, 3, 4] rfl).WellFramed ∧
      ¬ authenticationSCRAM.WellFramed :=
  ⟨not_wellFramed_md5, not_wellFramed_scram⟩

end Builder

/-! ## Startup messages -/

/-- `io.ReadFull` for `n` bytes of what a connection delivers before it ends:
the bytes, and what is left. -/
def readExactly (n : Nat) (input : Bytes) : Except Wire.ReadError Bytes × Bytes :=
  if n ≤ input.length then (.ok (input.take n), input.drop n)
  else (.error (.io (if input = [] then .eof else .unexpectedEOF)), [])

structure StartupMessage where
  protocolVersion : UInt32
  parameters : Bytes → Option Bytes

/-- The loop over the parameters, which has `rest` still to parse. -/
def readParameters : Nat → Bytes → (Bytes → Option Bytes) → Bytes → Option Bytes
  | 0, _, parameters => parameters
  | fuel + 1, rest, parameters =>
    if 1 < rest.length then
      match cut 0 rest with
      | none => parameters
      | some (key, rest) =>
        match cut 0 rest with
        | none => parameters
        | some (val, rest) =>
          readParameters fuel rest
            (if key ≠ [] then update parameters key (some val) else parameters)
    else parameters

/-- `common.ReadStartupMessage`: the message, and what is left of the input. -/
def readStartupMessage (input : Bytes) : Except Wire.ReadError StartupMessage × Bytes :=
  match readExactly 4 input with
  | (.error e, rest) => (.error e, rest)
  | (.ok lenBuf, rest) =>
    let length := Wire.bigEndian lenBuf
    if length < 8 ∨ 10000 < length then
      (.error (.errorf s!"invalid startup message length: {length}"), rest)
    else
      match readExactly (length - 4) rest with
      | (.error e, rest) => (.error e, rest)
      | (.ok buf, rest) =>
        (.ok ⟨.ofNat (Wire.bigEndian (buf.take 4)),
          readParameters buf.length (buf.drop 4) fun _ => none⟩, rest)

def encodeParameter (param : Bytes × Bytes) : Bytes := param.1 ++ 0 :: param.2 ++ [0]

/-- `common.WriteStartupMessage`, for a map that the loops go through in this
order.  The first loop adds up lengths, so that its order does not matter. -/
def writeStartupMessage (version : UInt32) (params : List (Bytes × Bytes)) : Bytes :=
  putBigEndian 4 (9 + (params.flatMap encodeParameter).length) ++
    putBigEndian 4 version.toNat ++ params.flatMap encodeParameter ++ [0]

theorem cut_append {s : Bytes} (hs : 0 ∉ s) (rest : Bytes) :
    cut 0 (s ++ 0 :: rest) = some (s, rest) := by
  induction s with
  | nil => rfl
  | cons b s ih =>
    rw [mem_cons, not_or] at hs
    rw [cons_append, cut, if_neg (Ne.symm hs.1), ih hs.2]
    rfl

/-- A parameter that can be written: the key is not empty, and nothing in it
ends a string. -/
def Writable (param : Bytes × Bytes) : Prop := param.1 ≠ [] ∧ 0 ∉ param.1 ∧ 0 ∉ param.2

/-- The loop finds the parameters of the map and no others, in any order. -/
theorem readParameters_written {params : List (Bytes × Bytes)} {fuel : Nat}
    {parameters : Bytes → Option Bytes} (hfuel : params.length ≤ fuel)
    (hparams : ∀ param ∈ params, Writable param) (hkeys : (params.map Prod.fst).Nodup) :
    readParameters fuel (params.flatMap encodeParameter ++ [0]) parameters =
      fun k => (params.lookup k).or (parameters k) := by
  induction params generalizing fuel parameters with
  | nil => cases fuel <;> rfl
  | cons param params ih =>
    obtain ⟨key, val⟩ := param
    obtain ⟨hne, hkey, hval⟩ := hparams _ mem_cons_self
    obtain ⟨fuel, rfl⟩ : ∃ m, fuel = m + 1 := Nat.exists_eq_add_of_le' (Nat.le_trans (by simp) hfuel)
    rw [map_cons, nodup_cons] at hkeys
    have hbytes : ((key, val) :: params).flatMap encodeParameter ++ [0] =
        key ++ 0 :: (val ++ 0 :: (params.flatMap encodeParameter ++ [0])) := by
      simp [encodeParameter]
    rw [hbytes, readParameters, if_pos (by simp; omega), cut_append hkey]
    dsimp only
    rw [cut_append hval]
    dsimp only
    rw [if_pos hne, ih (Nat.le_of_succ_le_succ hfuel)
      (fun param h => hparams param (mem_cons_of_mem _ h)) hkeys.2]
    funext k
    by_cases hk : k = key
    · subst hk
      have hnone : params.lookup k = none := lookup_eq_none_iff.mpr fun p hp =>
        bne_iff_ne.mpr fun h => hkeys.1 (mem_map.mpr ⟨p, hp, h.symm⟩)
      simp [hnone]
    · rw [lookup_cons, beq_false_of_ne hk, update_of_ne hk]

theorem readStartupMessage_written (version : UInt32) (params : List (Bytes × Bytes))
    (hparams : ∀ param ∈ params, Writable param) (hkeys : (params.map Prod.fst).Nodup)
    (hsize : (writeStartupMessage version params).length ≤ 10000) :
    readStartupMessage (writeStartupMessage version params) =
      (.ok ⟨version, fun k => params.lookup k⟩, []) := by
  have hlength : (writeStartupMessage version params).length =
      9 + (params.flatMap encodeParameter).length := by
    simp [writeStartupMessage]
    omega
  have hfuel : ∀ l : List (Bytes × Bytes), l.length ≤ (l.flatMap encodeParameter).length := by
    intro l
    induction l with
    | nil => simp
    | cons x l ih =>
      rw [flatMap_cons, length_append, length_cons, encodeParameter, length_append, length_append,
        length_cons]
      omega
  have hvalues : valuesOf 4 = 4294967296 := rfl
  have hrest : (putBigEndian 4 version.toNat ++ (params.flatMap encodeParameter ++ [0])).length =
      9 + (params.flatMap encodeParameter).length - 4 := by
    simp only [length_append, length_putBigEndian, length_singleton]
    omega
  have hread : readExactly 4 (writeStartupMessage version params) =
      (.ok (putBigEndian 4 (9 + (params.flatMap encodeParameter).length)),
        putBigEndian 4 version.toNat ++ (params.flatMap encodeParameter ++ [0])) := by
    rw [readExactly, if_pos (by omega), writeStartupMessage, append_assoc, append_assoc,
      take_left' (length_putBigEndian 4 _), drop_left' (length_putBigEndian 4 _)]
  rw [readStartupMessage, hread]
  dsimp only
  rw [bigEndian_put (by omega), if_neg (by omega), readExactly, if_pos hrest.ge,
    take_of_length_le hrest.le, drop_of_length_le hrest.le]
  dsimp only
  rw [take_left' (length_putBigEndian 4 _), drop_left' (length_putBigEndian 4 _),
    bigEndian_put (hvalues ▸ version.toNat_lt), UInt32.ofNat_toNat,
    readParameters_written (by have := hfuel params; omega) hparams hkeys]
  simp

theorem startupMessage_roundTrip :
    (∀ (version : UInt32) (params : List (Bytes × Bytes)), (∀ param ∈ params, Writable param) →
      (params.map Prod.fst).Nodup → (writeStartupMessage version params).length ≤ 10000 →
        readStartupMessage (writeStartupMessage version params) =
          (.ok ⟨version, fun k => params.lookup k⟩, [])) ∧
    ∀ (userFirst : Bool) (user database : Bytes), 0 ∉ user → 0 ∉ database →
      (createStartupMessage userFirst user database).length ≤ 10000 →
        readStartupMessage (createStartupMessage userFirst user database) =
          (.ok ⟨196608, fun k => [(ascii "user", user), (ascii "database", database)].lookup k⟩,
            []) := by
  refine ⟨readStartupMessage_written, fun userFirst user database huser hdatabase hsize => ?_⟩
  have huser : Writable (ascii "user", user) := ⟨by simp; decide, by simp; decide, huser⟩
  have hdatabase : Writable (ascii "database", database) :=
    ⟨by simp; decide, by simp; decide, hdatabase⟩
  have hne : ascii "user" ≠ ascii "database" := by decide
  have hcreate : createStartupMessage userFirst user database = writeStartupMessage 196608
      (if userFirst then [(ascii "user", user), (ascii "database", database)]
        else [(ascii "database", database), (ascii "user", user)]) := by
    cases userFirst <;> simp [createStartupMessage, writeStartupMessage, encodeParameter]
  rw [hcreate] at hsize ⊢
  rw [readStartupMessage_written _ _ (by cases userFirst <;> simp [huser, hdatabase])
    (by cases userFirst <;> simp [hne, hne.symm]) hsize]
  cases userFirst with
  | true => rfl
  | false =>
    congr
    funext k
    by_cases hk : k = ascii "user"
    · subst hk
      rfl
    · simp [lookup_cons, beq_false_of_ne hk]

theorem startupMessage_roundTrip_app : (createStartupMessage true (ascii "app") []).length ≤ 10000 ∧
      readStartupMessage (createStartupMessage true (ascii "app") []) =
        (.ok ⟨196608, fun k => [(ascii "user", ascii "app"), (ascii "database", [])].lookup k⟩,
          []) :=
  ⟨by decide, startupMessage_roundTrip.2 true _ _ (by decide) (by decide) (by decide)⟩

end Geryon.Startup
