import Shmfx.Lib.Hex
import Shmfx.Lifecycle.StartTime
import Shmfx.Security.Signing

/-! Which texts are keys: what a host's `SHMFX_HMAC_KEY` and key file give (`load_hmac_key`), and
when a header signed on one host is accepted on another. -/
namespace Shmfx

/-- `file >> hex`: the bytes from the first that is no blank to the next that is one. -/
def extractWord (content : List UInt8) : List UInt8 :=
  (content.dropWhile isSpace).takeWhile fun c => !isSpace c

/-- The environment of a process and the contents of the key file, if it opens. -/
structure KeyHost where
  environment : Option (List UInt8)
  keyFile : Option (List UInt8)

def KeyHost.keys (host : KeyHost) : KeySource :=
  { environment := host.environment, file := host.keyFile.map extractWord }

/-- Behind a word the file ends or a blank stands. -/
def WordEnds (rest : List UInt8) : Prop := ∀ c ∈ rest.head?, isSpace c = true

/-- The host gives `key`: in its environment, or, with the variable unset, as the first word of
its key file. -/
inductive KeyHost.Gives (host : KeyHost) (key : Vector UInt8 hmacBytes) : Prop
  | environment {text : List UInt8} (he : host.environment = some text)
      (hk : Hex.Spells text key.toList) : host.Gives key
  | keyFile {blanks word rest : List UInt8} (he : host.environment = none)
      (hf : host.keyFile = some (blanks ++ (word ++ rest)))
      (hb : ∀ c ∈ blanks, isSpace c = true) (hr : WordEnds rest)
      (hk : Hex.Spells word key.toList) : host.Gives key

section Digits

variable {c n : UInt8} {hex bytes : List UInt8} {key : Vector UInt8 hmacBytes}

theorem hexValue_eq_some_iff : hexValue c = some n ↔ n < 16 ∧ Hex.lower c = Hex.digit n := by
  have hc := c.toNat_lt
  have hn := n.toNat_lt
  unfold hexValue Hex.lower Hex.digit
  simp only [UInt8.le_iff_toNat_le, UInt8.lt_iff_toNat_lt, ← UInt8.toNat_inj, UInt8.reduceToNat]
  split_ifs <;>
    simp only [Option.some.injEq, false_iff, ← UInt8.toNat_inj, UInt8.toNat_add,
      UInt8.toNat_sub, UInt8.reduceToNat] <;>
    omega

theorem hexBytes_cons_iff {hi lo b : UInt8} :
    hexBytes (hi :: lo :: hex) = some (b :: bytes) ↔
      Hex.lower hi = Hex.digit (b / 16) ∧ Hex.lower lo = Hex.digit (b % 16) ∧
        hexBytes hex = some bytes := by
  obtain ⟨hdiv, hmod⟩ := Hex.halves_lt b
  rw [hexBytes]
  constructor
  · intro h
    obtain ⟨m, hm, h⟩ := Option.bind_eq_some_iff.mp h
    obtain ⟨n, hn, h⟩ := Option.bind_eq_some_iff.mp h
    obtain ⟨rest, hrest, h⟩ := Option.bind_eq_some_iff.mp h
    obtain ⟨hb, rfl⟩ := List.cons.inj (Option.some.inj h)
    obtain ⟨hm, hhi⟩ := hexValue_eq_some_iff.mp hm
    obtain ⟨hn, hlo⟩ := hexValue_eq_some_iff.mp hn
    obtain ⟨rfl, rfl⟩ := (Hex.or_shift_eq_iff hm hn).mp hb
    exact ⟨hhi, hlo, hrest⟩
  · rintro ⟨hhi, hlo, hrest⟩
    rw [hexValue_eq_some_iff.mpr ⟨hdiv, hhi⟩, hexValue_eq_some_iff.mpr ⟨hmod, hlo⟩, hrest]
    exact congrArg (fun b => some (b :: bytes)) ((Hex.or_shift_eq_iff hdiv hmod).mpr ⟨rfl, rfl⟩)

theorem hexBytes_cons_ne_nil {hi lo : UInt8} : hexBytes (hi :: lo :: hex) ≠ some [] := by
  rw [hexBytes]
  intro h
  obtain ⟨_, _, h⟩ := Option.bind_eq_some_iff.mp h
  obtain ⟨_, _, h⟩ := Option.bind_eq_some_iff.mp h
  obtain ⟨_, _, h⟩ := Option.bind_eq_some_iff.mp h
  exact List.cons_ne_nil _ _ (Option.some.inj h)

theorem hexBytes_eq_some_iff (heven : hex.length % 2 = 0) :
    hexBytes hex = some bytes ↔ Hex.Spells hex bytes := by
  -- two digits a round, as the loop takes them
  induction hex using hexBytes.induct generalizing bytes with
  | case1 hi lo hex ih =>
    have heven : hex.length % 2 = 0 := by
      simp only [List.length_cons] at heven
      omega
    cases bytes with
    | nil => exact iff_of_false hexBytes_cons_ne_nil fun h => by simpa using h.length
    | cons b bytes => rw [hexBytes_cons_iff, Hex.spells_cons, ih heven]
  | case2 hex hne =>
    cases hex with
    | nil => rw [Hex.spells_nil, hexBytes, Option.some.injEq, eq_comm]; simp
    | cons c hex =>
      cases hex with
      | nil => simp at heven
      | cons d hex => exact absurd rfl (hne c d hex)

theorem toList_ofFn_getD {n : Nat} (h : bytes.length = n) :
    (Vector.ofFn fun i : Fin n => bytes.getD i 0).toList = bytes := by
  subst h
  rw [Vector.toList_ofFn]
  refine List.ext_getElem (List.length_ofFn ..) fun i hi hi' => ?_
  rw [List.getElem_ofFn, List.getD_eq_getElem _ _ hi']

/-- A text is a key exactly if it writes the key's bytes in hexadecimal. -/
theorem parseHexKey_eq_some_iff : parseHexKey hex = some key ↔ Hex.Spells hex key.toList := by
  have hkey : key.toList.length = hmacBytes := by simp
  rw [parseHexKey]
  split_ifs with hl
  · refine iff_of_false (fun h => by cases h) fun h => hl ?_
    rw [h.length, hkey, Nat.mul_comm]
  · have hl : hex.length = hmacBytes * 2 := not_not.mp hl
    have heven : hex.length % 2 = 0 := by rw [hl, Nat.mul_mod_left]
    rw [← hexBytes_eq_some_iff heven, Option.map_eq_some_iff]
    constructor
    · rintro ⟨bytes, hbytes, rfl⟩
      have hlen := ((hexBytes_eq_some_iff heven).mp hbytes).length
      rw [toList_ofFn_getD (by omega), hbytes]
    · intro h
      exact ⟨_, h, Vector.toList_inj.mp (toList_ofFn_getD hkey)⟩

end Digits

section Words

variable {c : UInt8} {content blanks word rest bytes : List UInt8}

theorem not_isSpace_of_hexValue {n : UInt8} (h : hexValue c = some n) : isSpace c = false := by
  rw [Bool.eq_false_iff]
  intro hs
  have hlow : c.toNat ≤ 32 := by
    simp only [isSpace, Bool.or_eq_true, beq_iff_eq, Bool.and_eq_true, decide_eq_true_eq,
      ← UInt8.toNat_inj, UInt8.le_iff_toNat_le, UInt8.reduceToNat] at hs
    omega
  unfold hexValue at h
  simp only [UInt8.le_iff_toNat_le, UInt8.reduceToNat] at h
  split_ifs at h <;> omega

/-- The digits of a key hold no blank, so a word that is a key is read whole. -/
theorem not_isSpace_of_spells (h : Hex.Spells word bytes) (hc : c ∈ word) : isSpace c = false := by
  obtain ⟨n, hn⟩ := h.digit_of_mem hc
  exact not_isSpace_of_hexValue (hexValue_eq_some_iff.mpr hn)

theorem extractWord_eq (hb : ∀ c ∈ blanks, isSpace c = true)
    (hw : ∀ c ∈ word, isSpace c = false) (hne : word ≠ []) (hr : WordEnds rest) :
    extractWord (blanks ++ (word ++ rest)) = word := by
  obtain ⟨c, word, rfl⟩ := List.exists_cons_of_ne_nil hne
  have hblank : ¬ isSpace c = true := by simp [hw c List.mem_cons_self]
  rw [extractWord, List.dropWhile_append_of_pos hb, List.cons_append,
    List.dropWhile_cons_of_neg hblank, ← List.cons_append,
    List.takeWhile_append_of_pos (by simpa using hw)]
  cases rest with
  | nil => exact List.append_nil _
  | cons d rest => rw [List.takeWhile_cons_of_neg (by simp [hr d rfl]), List.append_nil]

/-- What is extracted stands in the file behind blanks and ends there. -/
theorem extractWord_split (content : List UInt8) :
    ∃ blanks rest, content = blanks ++ (extractWord content ++ rest) ∧
      (∀ c ∈ blanks, isSpace c = true) ∧ WordEnds rest := by
  refine ⟨content.takeWhile isSpace, (content.dropWhile isSpace).dropWhile fun c => !isSpace c,
    ?_, fun c hc => List.all_eq_true.mp List.all_takeWhile c hc, fun c hc => ?_⟩
  · rw [extractWord, List.takeWhile_append_dropWhile, List.takeWhile_append_dropWhile]
  · have := List.head?_dropWhile_not (fun c => !isSpace c) (content.dropWhile isSpace)
    rw [hc] at this
    simpa using this

end Words

variable {host : KeyHost} {key : Vector UInt8 hmacBytes}

theorem loadHmacKey_iff : loadHmacKey host.keys = some key ↔ host.Gives key := by
  obtain ⟨environment, keyFile⟩ := host
  cases environment with
  | some text =>
    refine parseHexKey_eq_some_iff.trans ⟨fun h => .environment rfl h, fun h => ?_⟩
    cases h with
    | environment he hk => exact Option.some.inj he ▸ hk
    | keyFile he => cases he
  | none =>
    constructor
    · intro h
      obtain ⟨word, hword, h⟩ := Option.bind_eq_some_iff.mp h
      obtain ⟨content, rfl, rfl⟩ := Option.map_eq_some_iff.mp hword
      obtain ⟨blanks, rest, hsplit, hb, hr⟩ := extractWord_split content
      exact .keyFile rfl (congrArg some hsplit) hb hr (parseHexKey_eq_some_iff.mp h)
    · intro h
      cases h with
      | environment he => cases he
      | @keyFile blanks word rest _ hf hb hr hk =>
        cases hf
        have hne : word ≠ [] := by
          rintro rfl
          simpa [hmacBytes] using hk.length
        have hword := extractWord_eq hb (fun c => not_isSpace_of_spells hk) hne hr
        exact (congrArg parseHexKey hword).trans (parseHexKey_eq_some_iff.mpr hk)

/-- Hosts that give one key agree on it, wherever each has it from. -/
theorem verifyHeader_of_same_key {signer verifier : KeyHost} {h h' : ShmHeader}
    (hsigner : signer.Gives key) (hverifier : verifier.Gives key)
    (hs : signHeaderIfEnabled signer.keys h = .ok h') :
    verifyHeaderHmac verifier.keys h' = .ok () := by
  have hload : loadHmacKey verifier.keys = loadHmacKey signer.keys :=
    (loadHmacKey_iff.mpr hverifier).trans (loadHmacKey_iff.mpr hsigner).symm
  have hv : verifyHeaderHmac verifier.keys h' = verifyHeaderHmac signer.keys h' := by
    unfold verifyHeaderHmac
    rw [hload]
  exact hv.trans (verifyHeader_of_signed hs rfl rfl rfl)

theorem denied_of_no_key {h : ShmHeader} (hnone : ∀ key, ¬ host.Gives key) :
    (h.flags &&& hmacEnabled ≠ 0 →
      signHeaderIfEnabled host.keys h = .error .permissionDenied) ∧
    (h.flags &&& hmacEnabled ≠ 0 ∨ hasHmacBytes h = true →
      verifyHeaderHmac host.keys h = .error .permissionDenied) := by
  have hload : loadHmacKey host.keys = none :=
    Option.eq_none_iff_forall_ne_some.mpr fun key hk => hnone key (loadHmacKey_iff.mp hk)
  constructor
  · intro hf
    rw [signHeaderIfEnabled, if_neg hf, hload]
  · intro hclaims
    have hsigned : ¬ (h.flags &&& hmacEnabled = 0 ∧ hasHmacBytes h = false) := by
      rintro ⟨hf, hbytes⟩
      rcases hclaims with hflag | hset
      · exact hflag hf
      · cases hbytes.symm.trans hset
    rw [verifyHeaderHmac, if_neg hsigned, hload]

/-- A process has a signing key exactly if its host gives one as 64 hexadecimal digits, in either
case: in the environment, which hides the key file even when it holds no key, or else as the first
word of that file. Whatever one host signs another accepts, however each writes the key they share;
and a host that gives no key neither signs nor accepts what claims a signature, by its flag or by
bytes in the field. -/
theorem key_text_decides :
    (∀ (host : KeyHost) (key : Vector UInt8 hmacBytes),
      loadHmacKey host.keys = some key ↔ host.Gives key) ∧
    (∀ (signer verifier : KeyHost) (key : Vector UInt8 hmacBytes) (h h' : ShmHeader),
      signer.Gives key → verifier.Gives key → signHeaderIfEnabled signer.keys h = .ok h' →
        verifyHeaderHmac verifier.keys h' = .ok ()) ∧
    ∀ (host : KeyHost) (h : ShmHeader), (∀ key, ¬ host.Gives key) →
      (h.flags &&& hmacEnabled ≠ 0 →
        signHeaderIfEnabled host.keys h = .error .permissionDenied) ∧
      (h.flags &&& hmacEnabled ≠ 0 ∨ hasHmacBytes h = true →
        verifyHeaderHmac host.keys h = .error .permissionDenied) := by
  exact ⟨fun _ _ => loadHmacKey_iff, fun _ _ _ _ _ => verifyHeader_of_same_key,
    fun _ _ => denied_of_no_key⟩

def abKey : Vector UInt8 hmacBytes := .replicate _ 171

/-- `abKey` in capitals in one host's environment, and as an indented line of another's file. -/
def capitalHost : KeyHost :=
  { environment := some (List.replicate 32 [65, 66]).flatten, keyFile := none }

def lineHost : KeyHost :=
  { environment := none
    keyFile := some ([32] ++ ((List.replicate 32 [97, 98]).flatten ++ [10])) }

/-- A header signed under the capitals is accepted under the line. -/
theorem key_text_decides_spellings :
    ∃ h', signHeaderIfEnabled capitalHost.keys { zeroHeader with flags := hmacEnabled } = .ok h' ∧
      verifyHeaderHmac lineHost.keys h' = .ok () := by
  have hcapital : capitalHost.Gives abKey := .environment rfl (by decide +kernel)
  have hline : lineHost.Gives abKey := by
    refine .keyFile rfl rfl ?_ ?_ (by decide +kernel)
    · simp [isSpace]
    · simp [WordEnds, isSpace]
  have hload := (key_text_decides.1 capitalHost abKey).mpr hcapital
  have hsigned : signHeaderIfEnabled capitalHost.keys { zeroHeader with flags := hmacEnabled } =
      .ok { zeroHeader with
        flags := hmacEnabled
        hmac := hmacSha256 abKey { zeroHeader with flags := hmacEnabled }.immutableBytes } := by
    rw [signHeaderIfEnabled, if_neg (by decide), hload]
  exact ⟨_, hsigned, key_text_decides.2.1 _ _ _ _ _ hcapital hline hsigned⟩

end Shmfx
