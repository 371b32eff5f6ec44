import Geryon.Startup.Pattern

/-!
# Which proofs of a password are accepted

Package `internal/auth` has a client's and a server's side for SCRAM, and
`internal/protocol/mysql` the client's side for MySQL.  This module compares
them: SCRAM client against SCRAM server, the stored SCRAM hashes against
`VerifySCRAMSHA256`, MySQL client against `VerifyMySQLPassword`, and
`VerifyNTLMResponse` against the key derivation that its comment states.

The hash functions are arbitrary.  Of base64 only `Lib.Encodes` is assumed.
-/

namespace Geryon.Startup

open Conc.Fallible List

/-- What is assumed of base64. -/
structure Lib.Encodes (lib : Lib) : Prop where
  decode : ∀ b, lib.decodeBase64 (lib.encodeBase64 b) = (b, true)
  nonempty : ∀ b, b ≠ [] → lib.encodeBase64 b ≠ []

variable {lib : Lib}

/-! ## SCRAM client against SCRAM server -/

/-- `GenerateSCRAMSHA256`, for a salt and a number of iterations. -/
def scramHash (lib : Lib) (password salt : Bytes) (iterations : Nat) : Bytes :=
  let saltedPassword := pbkdf2Key lib password salt iterations 32
  let clientKey := lib.hmacSHA256 saltedPassword (ascii "Client Key")
  ascii "SCRAM-SHA-256$" ++ decimal iterations ++ ascii ":" ++ lib.encodeBase64 salt ++
    ascii "$" ++ lib.encodeBase64 (lib.sha256 clientKey) ++ ascii ":" ++
    lib.encodeBase64 (lib.hmacSHA256 saltedPassword (ascii "Server Key"))

/-- The client after `BuildClientFirst`, for the nonce that it has drawn. -/
def SCRAMClient.first (lib : Lib) (c : SCRAMClient) (username nonceBytes : Bytes) : SCRAMClient :=
  { c with
    clientNonce := lib.encodeBase64 nonceBytes
    username
    clientFirst := ascii "n=" ++ username ++ ascii ",r=" ++ lib.encodeBase64 nonceBytes }

/-- The three messages of the client and the two of the server, for a stored
hash: all of them are accepted. -/
def Interoperates (lib : Lib) (c : SCRAMClient) (hash serverNonce : Bytes) : Prop :=
  ∃ state keys accepted, parseClientFirst c.clientFirst = .ok state ∧
    parseSCRAMHash lib hash = .ok keys ∧
    let served := state.serverFirstWith lib keys serverNonce
    verifyClientFinal lib served (c.buildClientFinal lib served.serverFirst).1 = .ok accepted ∧
    (c.buildClientFinal lib served.serverFirst).2.verifyServerFinal lib
      (generateServerFinal lib accepted) = true

/-- A client-first-message without a GS2 header is refused. -/
theorem parseClientFirst_of_name (rest : Bytes) :
    ∃ err, parseClientFirst (ascii "n=" ++ rest) = .error err := by
  have hcut : cut comma (ascii "n=" ++ rest) =
      (cut comma rest).map fun r => (ascii "n=" ++ r.1, r.2) := by
    show (((cut comma rest).map _).map _ : Option (Bytes × Bytes)) = _
    rw [Option.map_map]
    rfl
  unfold parseClientFirst
  rw [hcut]
  cases cut comma rest with
  | none => exact ⟨_, rfl⟩
  | some r =>
    cases h : cut comma r.2 with
    | none => simp [h]
    | some r' =>
      simp only [Option.map_some, h]
      refine ⟨_, if_neg fun hpre => ?_⟩
      obtain ⟨_, hpre⟩ := isPrefixOf_iff_prefix.mp hpre
      cases hpre

/-- `ParseClientFirst` refuses every message of `BuildClientFirst`: it lacks
the header `n,,`. -/
theorem scram_never_interoperates (c : SCRAMClient)
    (username password salt nonceBytes serverNonce : Bytes) (iterations : Nat) :
    ¬ Interoperates lib (c.first lib username nonceBytes) (scramHash lib password salt iterations)
      serverNonce := by
  rintro ⟨state, keys, accepted, hfirst, -⟩
  obtain ⟨err, herr⟩ := parseClientFirst_of_name
    (username ++ ascii ",r=" ++ lib.encodeBase64 nonceBytes)
  have hsame : parseClientFirst (c.first lib username nonceBytes).clientFirst = .error err := by
    simpa [SCRAMClient.first] using herr
  cases hfirst.symm.trans hsame

theorem bob_refused :
    parseClientFirst (SCRAMClient.first Lib.plain ⟨[], ascii "secret", [], [], none, [], [], [], []⟩
      (ascii "bob") (ascii "nonce")).clientFirst =
        .error (.errorf "invalid client-first-message format") := by
  decide

/-! ## Stored SCRAM hashes -/

/-- The keys that both generators write. -/
def scramKeys (lib : Lib) (password salt : Bytes) : SCRAMKeys :=
  let saltedPassword := pbkdf2Key lib password salt 120000 32
  { storedKey := lib.sha256 (lib.hmacSHA256 saltedPassword (ascii "Client Key"))
    serverKey := lib.hmacSHA256 saltedPassword (ascii "Server Key")
    salt
    iterations := 120000 }

/-- `GenerateSCRAMHash`, for a salt. -/
def generateSCRAMHash (lib : Lib) (password salt : Bytes) : Bytes :=
  let keys := scramKeys lib password salt
  ascii "SCRAM-SHA-256$" ++ decimal 120000 ++ ascii ":" ++ lib.encodeBase64 salt ++
    ascii ":" ++ lib.encodeBase64 keys.storedKey ++ ascii ":" ++ lib.encodeBase64 keys.serverKey

/-- `VerifySCRAMSHA256`, for `strconv.Atoi`. -/
def verifySCRAMSHA256 (lib : Lib) (atoi : Bytes → Option Int) (password hash : Bytes) :
    Except Err Bool := do
  let [algorithm, first, second] := split '$'.toUInt8 hash
    | .error (.errorf "invalid hash format")
  if algorithm ≠ ascii "SCRAM-SHA-256" then
    .error (.errorf s!"unsupported algorithm: {text algorithm}")
  let [iterations, salt] := split ':'.toUInt8 first
    | .error (.errorf "invalid iterations/salt format")
  let some iterations := atoi iterations | .error (.wrap "invalid iterations" .system)
  let salt ← decodePart lib "salt" salt
  let [storedKey, _] := split ':'.toUInt8 second | .error (.errorf "invalid keys format")
  let storedKey ← decodePart lib "stored key" storedKey
  let saltedPassword := pbkdf2Key lib password salt iterations.toNat 32
  return storedKey == lib.sha256 (lib.hmacSHA256 saltedPassword (ascii "Client Key"))

theorem split_append {sep : UInt8} {part : Bytes} (h : sep ∉ part) (rest : Bytes) :
    split sep (part ++ sep :: rest) = part :: split sep rest := by
  induction part with
  | nil => exact if_pos rfl
  | cons b part ih =>
    rw [mem_cons, not_or] at h
    rw [cons_append, split, if_neg (Ne.symm h.1), ih h.2]

theorem split_pair {sep : UInt8} {a b : Bytes} (ha : sep ∉ a) (hb : sep ∉ b) :
    split sep (a ++ sep :: b) = [a, b] := by
  obtain ⟨-, h⟩ | ⟨part, rest, rfl, -⟩ := split_eq sep b
  · rw [split_append ha, h]
  · simp at hb

/-- Of the two formats, `VerifySCRAMSHA256` reads that of `GenerateSCRAMSHA256` only. -/
theorem interchangeable_iff {atoi : Bytes → Option Int} {password salt hash : Bytes}
    {keys : SCRAMKeys} (hlib : lib.Encodes) (hscan : lib.scanInt (decimal 120000) = some 120000)
    (hatoi : atoi (decimal 120000) = some 120000) (hkeys : scramKeys lib password salt = keys)
    (hfree : ∀ b ∈ [salt, keys.storedKey, keys.serverKey],
      '$'.toUInt8 ∉ lib.encodeBase64 b ∧ ':'.toUInt8 ∉ lib.encodeBase64 b)
    (hhash : hash = generateSCRAMHash lib password salt ∨
      hash = scramHash lib password salt 120000) :
    parseSCRAMHash lib hash = .ok keys ∧ verifySCRAMSHA256 lib atoi password hash = .ok true ↔
      hash = scramHash lib password salt 120000 := by
  have hdecimal : '$'.toUInt8 ∉ decimal 120000 ∧ ':'.toUInt8 ∉ decimal 120000 := by decide
  have hname : '$'.toUInt8 ∉ ascii "SCRAM-SHA-256" := by decide
  have hformat : ascii "SCRAM-SHA-256$" = ascii "SCRAM-SHA-256" ++ ['$'.toUInt8] := rfl
  have hne : '$'.toUInt8 ≠ ':'.toUInt8 := by decide
  simp only [forall_mem_cons] at hfree
  obtain ⟨hsalt, hstored, hserver, -⟩ := hfree
  by_cases hsha : hash = scramHash lib password salt 120000
  · obtain ⟨first, second, hparts, hsplit, hfirst, hsecond⟩ : ∃ first second,
        hash = ascii "SCRAM-SHA-256$" ++ (first ++ '$'.toUInt8 :: second) ∧
        split '$'.toUInt8 (first ++ '$'.toUInt8 :: second) = [first, second] ∧
        split ':'.toUInt8 first = [decimal 120000, lib.encodeBase64 salt] ∧
        split ':'.toUInt8 second =
          [lib.encodeBase64 keys.storedKey, lib.encodeBase64 keys.serverKey] := by
      refine ⟨_, _, ?_, split_pair ?_ ?_, split_pair hdecimal.2 hsalt.2,
        split_pair hstored.2 hserver.2⟩
      · simp [hsha, scramHash, ← hkeys, scramKeys, ascii]
      · simp [hdecimal, hsalt, hne]
      · simp [hstored, hserver, hne]
    refine iff_of_true ⟨?_, ?_⟩ hsha
    · rw [hparts, parseSCRAMHash, if_pos (by simp), drop_left]
      simp only [hsplit, hfirst, hsecond, scanIterations, hscan, decodePart, hlib.decode, if_true]
      subst hkeys
      rfl
    · rw [hparts, verifySCRAMSHA256, hformat, append_assoc, singleton_append, split_append hname,
        hsplit]
      simp only [hfirst, hsecond, hatoi, decodePart, hlib.decode, if_true, ← hkeys]
      exact congrArg Except.ok (beq_self_eq_true _)
  · refine iff_of_false ?_ hsha
    rintro ⟨-, h⟩
    rw [hhash.resolve_right hsha, generateSCRAMHash, verifySCRAMSHA256, hkeys] at h
    simp only [append_assoc] at h
    rw [hformat, append_assoc, singleton_append, split_pair hname] at h
    · cases h
    · simp [hdecimal, hsalt, hstored, hserver, hne, ascii]

/-- Any number is read as 120000. -/
def Lib.reading : Lib := { Lib.plain with scanInt := fun _ => some 120000 }

theorem interchangeable_iff_secret : verifySCRAMSHA256 .reading (fun _ => some 120000)
    (ascii "secret") (scramHash .reading (ascii "secret") [7] 120000) = .ok true :=
  ((interchangeable_iff ⟨fun _ => rfl, fun _ h => h⟩ rfl rfl rfl (by decide) (.inr rfl)).mpr rfl).2

/-- The right password is refused. -/
theorem secret_not_verified : verifySCRAMSHA256 .reading (fun _ => some 120000) (ascii "secret")
    (generateSCRAMHash .reading (ascii "secret") [7]) = .error (.errorf "invalid hash format") :=
  rfl

/-! ## MySQL client against `VerifyMySQLPassword` -/

def scramblePassword (lib : Lib) (password scramble : Bytes) : Bytes :=
  if password = [] then []
  else
    let hash1 := lib.sha1 password
    let hash2 := lib.sha1 hash1
    let hash3 := lib.sha1 (scramble ++ hash2)
    xor hash1 hash3

def scrambleCachingSHA2Password (lib : Lib) (password scramble : Bytes) : Bytes :=
  if password = [] then []
  else
    let hash1 := lib.sha256 password
    let hash2 := lib.sha256 hash1
    let hash3 := lib.sha256 (hash2 ++ scramble)
    xor hash1 hash3

/-- The answers of a client that knows the password are accepted. -/
@[mk_iff acceptsPassword_and]
structure AcceptsPassword (lib : Lib) (password scramble : Bytes) : Prop where
  native : verifyMySQLPassword lib (lib.encodeBase64 (lib.sha1 (lib.sha1 password))) scramble
    (scramblePassword lib password scramble) = .ok ()
  caching : verifyMySQLPassword lib (lib.encodeBase64 (lib.sha256 (lib.sha256 password))) scramble
    (scrambleCachingSHA2Password lib password scramble) = .ok ()

theorem length_xor (h : a.length = b.length) : (xor a b).length = a.length := by
  simp [xor, h]

theorem xor_xor_cancel (h : a.length = b.length) : xor (xor a b) b = a := by
  induction a generalizing b with
  | nil => rfl
  | cons x a ih =>
    cases b with
    | nil => cases h
    | cons y b =>
      have hx : x ^^^ y ^^^ y = x := by rw [UInt8.xor_assoc, UInt8.xor_self, UInt8.xor_zero]
      show (x ^^^ y ^^^ y) :: xor (xor a b) b = x :: a
      rw [hx, ih (Nat.succ.inj h)]

/-- `VerifyMySQLPassword` accepts the native answer where the hash of the first
eight bytes of the scramble does for that of all of it, and the other answer
where the scramble does not change the hash. -/
theorem acceptsPassword_iff (hlib : lib.Encodes) (hsha1 : ∀ b, (lib.sha1 b).length = 20)
    (hsha256 : ∀ b, (lib.sha256 b).length = 32) {password scramble : Bytes} (hpass : password ≠ [])
    (hscramble : scramble.length = 20) : AcceptsPassword lib password scramble ↔
      lib.sha1 (xor (xor (lib.sha1 password) (lib.sha1 (scramble ++ lib.sha1 (lib.sha1 password))))
        (lib.sha1 (scramble.take 8 ++ lib.sha1 (lib.sha1 password)))) =
          lib.sha1 (lib.sha1 password) ∧
      lib.sha256 (lib.sha256 password ++ scramble) = lib.sha256 (lib.sha256 password) := by
  have hstored : ∀ b, b.length ≠ 0 → lib.encodeBase64 b ≠ [] :=
    fun b hb => hlib.nonempty b (by rintro rfl; exact hb rfl)
  rw [acceptsPassword_and]
  refine and_congr ?_ ?_
  · simp [verifyMySQLPassword, verifyNativePassword, scramblePassword, hpass, hlib.decode, hsha1,
      hscramble, hstored, length_xor, xorBytes]
  · simp [verifyMySQLPassword, verifyCachingSHA2Password, scrambleCachingSHA2Password, hpass,
      hlib.decode, hsha256, hscramble, hstored, length_xor, xor_xor_cancel, xorBytes,
      take_of_length_le]

/-- Hash functions that give zeros only. -/
def Lib.zeros : Lib := { Lib.plain with sha256 := fun _ => replicate 32 0 }

theorem acceptsPassword_zeros : AcceptsPassword Lib.zeros (ascii "secret") (replicate 20 7) :=
  (acceptsPassword_iff ⟨fun _ => rfl, fun _ h => h⟩ (fun _ => rfl) (fun _ => rfl) (by decide)
    rfl).mpr ⟨rfl, rfl⟩

/-- Hash functions that keep the beginning and the end of their input. -/
def Lib.turning : Lib :=
  { Lib.plain with
    sha1 := fun b => (b ++ replicate 20 0).take 20
    sha256 := fun b => (b.reverse ++ replicate 32 0).take 32 }

/-- The right password is refused in both ways. -/
theorem secret_refused : (verifyMySQLPassword Lib.turning
      (Lib.turning.encodeBase64 (Lib.turning.sha1 (Lib.turning.sha1 (ascii "secret"))))
      (replicate 20 7)
      (scramblePassword Lib.turning (ascii "secret") (replicate 20 7))).isOk = false ∧
    (verifyMySQLPassword Lib.turning
      (Lib.turning.encodeBase64 (Lib.turning.sha256 (Lib.turning.sha256 (ascii "secret"))))
      (replicate 20 7)
      (scrambleCachingSHA2Password Lib.turning (ascii "secret") (replicate 20 7))).isOk =
      false := by
  decide +kernel

/-! ## NTLMv2 -/

/-- UTF-16LE: two units for what does not fit into one. -/
def encodeUTF16 (lib : Lib) (s : Bytes) : Bytes :=
  (lib.runes s).flatMap fun r =>
    if r < 0x10000 then putLittleEndian 2 r
    else putLittleEndian 2 (0xD800 + (r - 0x10000) / 0x400) ++
      putLittleEndian 2 (0xDC00 + (r - 0x10000) % 0x400)

/-- A Type 3 message as NTLMv2 prescribes it. -/
def ntlmv2 (lib : Lib) (hash challenge blob user domain : Bytes) : NTLMAuthenticate :=
  let key := lib.hmacMD5 hash (encodeUTF16 lib (lib.toUpper user ++ domain))
  { ntlmResponse := lib.hmacMD5 key (challenge ++ blob) ++ blob, domain, user }

/-- `VerifyNTLMResponse` accepts it, whatever the hash function is, exactly
where the two names are encoded alike. -/
theorem verifyNTLMResponse_ntlmv2_iff (hash challenge blob user domain : Bytes) :
    (∀ hmac : Bytes → Bytes → Bytes, (∀ key data, (hmac key data).length = 16) →
      verifyNTLMResponse { lib with hmacMD5 := hmac }
        (ntlmv2 { lib with hmacMD5 := hmac } hash challenge blob user domain) challenge hash =
        true) ↔
    encodeNTLMString lib (lib.toUpper user ++ lib.toUpper domain) =
      encodeUTF16 lib (lib.toUpper user ++ domain) := by
  have haccepts : ∀ hmac : Bytes → Bytes → Bytes, (∀ key data, (hmac key data).length = 16) →
      (verifyNTLMResponse { lib with hmacMD5 := hmac }
        (ntlmv2 { lib with hmacMD5 := hmac } hash challenge blob user domain) challenge hash =
        true ↔
      hmac (hmac hash (encodeUTF16 lib (lib.toUpper user ++ domain))) (challenge ++ blob) =
        hmac (hmac hash (encodeNTLMString lib (lib.toUpper user ++ lib.toUpper domain)))
          (challenge ++ blob)) := by
    intro hmac hlen
    have hshort : ¬ (16 + blob.length < 16) := by omega
    simp only [verifyNTLMResponse, ntlmv2, length_append, hlen, hshort, if_false,
      decide_eq_true_eq, take_left' (hlen _ _), drop_left' (hlen _ _)]
    exact Iff.rfl
  constructor
  · intro h
    by_contra hne
    -- Two keys that differ from each other and from the hash, and that stay what they are.
    let a : Bytes := replicate 16 (hash.headD 0 + 1)
    let b : Bytes := replicate 16 (hash.headD 0 + 2)
    have hself : ∀ x : UInt8, x + 1 ≠ x ∧ x + 2 ≠ x ∧ x + 1 ≠ x + 2 := by grind
    have ha : a ≠ hash := by
      intro heq
      exact (hself (hash.headD 0)).1 (congrArg (headD · 0) heq)
    have hb : b ≠ hash := by
      intro heq
      exact (hself (hash.headD 0)).2.1 (congrArg (headD · 0) heq)
    have hab : b ≠ a := by
      intro heq
      exact (hself (hash.headD 0)).2.2 (congrArg (headD · 0) heq).symm
    let hmac : Bytes → Bytes → Bytes := fun key data =>
      if key = hash then
        if data = encodeNTLMString lib (lib.toUpper user ++ lib.toUpper domain) then a else b
      else if key = a then a else b
    have hlen : ∀ key data, (hmac key data).length = 16 := by
      intro key data
      simp only [hmac]
      split
      · split <;> exact length_replicate
      · split <;> exact length_replicate
    have hsame := (haccepts hmac hlen).mp (h hmac hlen)
    simp only [hmac, if_true, if_neg (Ne.symm hne), if_neg ha, if_neg hb, if_neg hab] at hsame
    exact hab hsame
  · intro h hmac hlen
    rw [haccepts hmac hlen, h]

/-- Upper case for ASCII, and a hash that keeps the beginning of its data. -/
def Lib.keeping : Lib :=
  { Lib.plain with
    toUpper := fun b => b.map fun x => if 97 ≤ x ∧ x ≤ 122 then x - 32 else x
    hmacMD5 := fun key data => (key ++ data ++ replicate 16 0).take 16 }

/-- A domain in lower case is refused. -/
theorem corp_refused : verifyNTLMResponse Lib.keeping
      (ntlmv2 Lib.keeping [] (replicate 8 0) [1] (ascii "bob") (ascii "corp"))
      (replicate 8 0) [] = false := by
  decide

end Geryon.Startup
