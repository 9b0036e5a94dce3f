import IMeDesktop.Mtproto.ProxyData

/-! # Passwords and secrets agree

A password is reported valid exactly when its secret is one that a connection accepts. The
characters that the check of a kind looks at are compared with the byte they decode to.
-/

namespace IMeDesktop.Mtproto

open Lib Ui

variable {password rest : QString} {ch first second : QChar} {secret : Bytes}

/-- What `ValidateSecret` asks of a secret that is not empty. -/
theorem validateSecret_iff (present : secret ≠ []) : ValidateSecret secret = true ↔
    secret.length = 16 ∨ (secret.length = 17 ∧ secret.head? = some 0xDD) ∨
      (secret.length ≥ 21 ∧ secret.head? = some 0xEE) := by
  have nonempty : secret.isEmpty = false := by simpa using present
  simp only [ValidateSecret, nonempty, Bool.or_false, Bool.or_eq_true, Bool.and_eq_true, decide_eq_true_eq]
  tauto

theorem head_eq_iff {value byte : Nat} {others : Bytes} (small : value < 256) (fits : byte < 256) :
    (UInt8.ofNat value :: others).head? = some (UInt8.ofNat byte) ↔ value = byte := by
  rw [List.head?_cons, Option.some.injEq, ← UInt8.toNat_inj, UInt8.toNat_ofNat_of_lt' small,
    UInt8.toNat_ofNat_of_lt' fits]

/-! ## Hex -/

theorem isHexDigit_iff : (fromHex ch).isSome = true ↔
    ((ch < 0x61 || ch > 0x66) && (ch < 0x41 || ch > 0x46) && (ch < 0x30 || ch > 0x39)) = false := by
  unfold fromHex
  grind

theorem isHex_iff : IsHexMtprotoPassword password = true ↔
    (32 ≤ password.length ∧ password.length % 2 = 0) ∧ ∀ ch ∈ password, (fromHex ch).isSome = true := by
  unfold IsHexMtprotoPassword
  simp only [isHexDigit_iff]
  split_ifs with short
  · refine iff_of_false not_false fun hex => ?_
    omega
  · have long : 32 ≤ password.length ∧ password.length % 2 = 0 := by omega
    rw [Bool.not_eq_true', List.any_eq_false]
    simp only [Bool.not_eq_true, long, and_self, true_and]

theorem toLower_eq_iff {letter : QChar} (lower : 0x61 ≤ letter.toNat ∧ letter.toNat ≤ 0x7A) :
    toLower ch = letter ↔ ch.toNat = letter.toNat ∨ ch.toNat + 0x20 = letter.toNat := by
  have bound := ch.toNat_lt
  unfold toLower
  simp only [UInt16.le_iff_toNat_le, ← UInt16.toNat_inj]
  split_ifs with capital
  · rw [UInt16.toNat_add]
    simp only [UInt16.reduceToNat] at capital ⊢
    omega
  · simp only [UInt16.reduceToNat] at capital
    omega

theorem hexDigit_spec {value : Nat} (digit : fromHex ch = some value) :
    value < 16 ∧ (value = 13 ↔ toLower ch = 0x64) ∧ (value = 14 ↔ toLower ch = 0x65) := by
  rw [toLower_eq_iff (by decide), toLower_eq_iff (by decide)]
  simp only [fromHex, UInt16.le_iff_toNat_le, UInt16.reduceToNat] at digit ⊢
  split_ifs at digit <;> simp only [Option.some.injEq] at digit <;> omega

theorem secretFromHex_spec (hex : ∀ ch ∈ password, (fromHex ch).isSome = true) (even : password.length % 2 = 0) :
    ∃ secret, SecretFromHexMtprotoPassword password = some secret ∧ secret.length = password.length / 2 := by
  induction password using SecretFromHexMtprotoPassword.induct with
  | case1 => exact ⟨[], rfl, rfl⟩
  | case2 ch => simp at even
  | case3 first second rest ih =>
      obtain ⟨high, isHigh⟩ := Option.isSome_iff_exists.mp (hex first (by simp))
      obtain ⟨low, isLow⟩ := Option.isSome_iff_exists.mp (hex second (by simp))
      simp only [List.length_cons] at even
      obtain ⟨others, decoded, length⟩ := ih (fun ch member => hex ch (by simp [member])) (by omega)
      refine ⟨UInt8.ofNat (high * 16 + low) :: others, ?_, ?_⟩
      · simp only [SecretFromHexMtprotoPassword, isHigh, isLow, decoded, Option.bind_eq_bind, Option.bind_some]
      · simp only [List.length_cons, length]
        omega

theorem hexStatus_valid_iff (hex : IsHexMtprotoPassword password = true) :
    HexMtprotoPasswordStatus password = .valid ↔
      ∃ secret, SecretFromHexMtprotoPassword password = some secret ∧ secret ≠ [] ∧ ValidateSecret secret = true := by
  obtain ⟨⟨long, even⟩, digits⟩ := isHex_iff.mp hex
  obtain ⟨secret, decoded, length⟩ := secretFromHex_spec digits even
  have present : secret ≠ [] := by
    intro empty
    rw [empty, List.length_nil] at length
    omega
  have only : (∃ secret', SecretFromHexMtprotoPassword password = some secret' ∧ secret' ≠ [] ∧
      ValidateSecret secret' = true) ↔ ValidateSecret secret = true := by
    simp [decoded, present]
  rw [only, validateSecret_iff present]
  match password, long, digits, decoded, length with
  | [], long, _, _, _ => simp at long
  | [_], long, _, _, _ => simp at long
  | first :: second :: rest, _, digits, decoded, length =>
      obtain ⟨high, isHigh⟩ := Option.isSome_iff_exists.mp (digits first (by simp))
      obtain ⟨low, isLow⟩ := Option.isSome_iff_exists.mp (digits second (by simp))
      obtain ⟨smallHigh, highD, highE⟩ := hexDigit_spec isHigh
      obtain ⟨smallLow, lowD, lowE⟩ := hexDigit_spec isLow
      simp only [SecretFromHexMtprotoPassword, isHigh, isLow, Option.bind_eq_bind, Option.bind_some] at decoded
      obtain ⟨others, -, same⟩ := Option.bind_eq_some_iff.mp decoded
      have dd : secret.head? = some 0xDD ↔ high = 13 ∧ low = 13 := by
        rw [← Option.some.inj same]
        exact (@head_eq_iff (high * 16 + low) 0xDD others (by omega) (by decide)).trans (by omega)
      have ee : secret.head? = some 0xEE ↔ high = 14 ∧ low = 14 := by
        rw [← Option.some.inj same]
        exact (@head_eq_iff (high * 16 + low) 0xEE others (by omega) (by decide)).trans (by omega)
      have valid : HexMtprotoPasswordStatus (first :: second :: rest) = .valid ↔
          secret.length = 16 ∨ (secret.length = 17 ∧ toLower first = 0x64 ∧ toLower second = 0x64) ∨
            (secret.length ≥ 21 ∧ toLower first = 0x65 ∧ toLower second = 0x65) := by
        simp only [HexMtprotoPasswordStatus, ← length, List.getElem?_cons_zero, List.getElem?_cons_succ,
          Option.map_some, Option.some.injEq]
        split_ifs with accepted <;> simp [accepted]
      rw [valid, dd, ee, ← highD, ← lowD, ← highE, ← lowE]

/-! ## Base64 -/

theorem skipPadding_spec (n : Nat) (password : QString) :
    ∃ k, k ≤ n ∧ password = skipPadding n password ++ List.replicate k 0x3D := by
  induction n generalizing password with
  | zero => exact ⟨0, le_rfl, (List.append_nil _).symm⟩
  | succ n ih =>
      by_cases padded : password.getLast? = some 0x3D
      · obtain ⟨k, few, split⟩ := ih password.dropLast
        refine ⟨k + 1, by omega, ?_⟩
        rw [skipPadding, if_pos padded, List.replicate_succ', ← List.append_assoc, ← split]
        exact (List.dropLast_append_getLast? _ padded).symm
      · refine ⟨0, Nat.zero_le _, ?_⟩
        rw [skipPadding, if_neg padded, List.replicate_zero, List.append_nil]

theorem isLetter_iff : (Base64.urlValue ch.toNat).isSome = true ↔
    ((ch < 0x61 || ch > 0x7A) && (ch < 0x41 || ch > 0x5A) && (ch < 0x30 || ch > 0x39) && ch != 0x5F &&
      ch != 0x2D) = false := by
  simp only [Base64.urlValue, UInt16.lt_iff_toNat_lt, GT.gt, UInt16.reduceToNat, Bool.and_eq_false_iff,
    Bool.or_eq_false_iff, decide_eq_false_iff_not, bne_eq_false_iff_eq, ← UInt16.toNat_inj]
  split_ifs <;> simp only [Option.isSome_some, Option.isSome_none, Bool.false_eq_true, true_iff, false_iff] <;> omega

theorem isBase64_iff : IsBase64UrlMtprotoPassword password = true ↔
    (22 ≤ password.length ∧ password.length % 4 ≠ 1) ∧
      ∀ ch ∈ Base64UrlInner password, (Base64.urlValue ch.toNat).isSome = true := by
  unfold IsBase64UrlMtprotoPassword
  simp only [isLetter_iff]
  split_ifs with short
  · refine iff_of_false not_false fun base64 => ?_
    omega
  · have long : 22 ≤ password.length ∧ password.length % 4 ≠ 1 := by omega
    rw [Bool.not_eq_true', List.any_eq_false]
    simp only [Bool.not_eq_true, long, ne_eq, not_false_eq_true, and_self, true_and]

/-- Letters are Latin-1, and the padding is skipped. -/
theorem values_toLatin1 (letters : ∀ ch ∈ Base64UrlInner password, (Base64.urlValue ch.toNat).isSome = true) :
    ((toLatin1 password).filterMap fun byte => Base64.urlValue byte.toNat) =
      (Base64UrlInner password).filterMap fun ch => Base64.urlValue ch.toNat := by
  obtain ⟨k, -, split⟩ := skipPadding_spec 2 password
  have inner : ∀ l : QString, (∀ ch ∈ l, (Base64.urlValue ch.toNat).isSome = true) →
      ((toLatin1 l).filterMap fun byte => Base64.urlValue byte.toNat) =
        l.filterMap fun ch => Base64.urlValue ch.toNat := by
    intro l all
    rw [toLatin1, List.filterMap_map]
    refine List.filterMap_congr fun ch member => ?_
    have latin : ch.toNat < 0x80 := by
      have letter := all ch member
      unfold Base64.urlValue at letter
      by_contra large
      rw [if_neg (by omega), if_neg (by omega), if_neg (by omega), if_neg (by omega), if_neg (by omega)] at letter
      cases letter
    have small : ch < 0x100 := by
      rw [UInt16.lt_iff_toNat_lt]
      exact latin.trans (by decide)
    have same : ch.toUInt8.toNat = ch.toNat := by
      rw [UInt16.toNat_toUInt8]
      omega
    simp only [Function.comp_apply, if_pos small, same]
  have padding : (toLatin1 (List.replicate k 0x3D)).filterMap (fun byte => Base64.urlValue byte.toNat) = [] := by
    rw [toLatin1, List.map_replicate, List.filterMap_replicate_of_none (by decide)]
  conv_lhs => rw [split, toLatin1, List.map_append, List.filterMap_append]
  rw [← toLatin1, ← toLatin1, padding, List.append_nil]
  exact inner _ letters

/-- The letters that are looked at, and their bits. -/
theorem letter_spec {value : Nat} (letter : Base64.urlValue ch.toNat = some value) :
    value < 64 ∧ (value = 55 ↔ ch = 0x33) ∧ (value = 59 ↔ ch = 0x37) ∧
      (value / 16 = 1 ↔ (0x51 ≤ ch ∧ ch ≤ 0x5A) ∨ (0x61 ≤ ch ∧ ch ≤ 0x66)) ∧
      (value / 16 = 2 ↔ 0x67 ≤ ch ∧ ch ≤ 0x76) := by
  simp only [Base64.urlValue, UInt16.le_iff_toNat_le, UInt16.reduceToNat, ← UInt16.toNat_inj] at letter ⊢
  split_ifs at letter <;> simp only [Option.some.injEq] at letter <;> omega

theorem base64Status_valid_iff (base64 : IsBase64UrlMtprotoPassword password = true) :
    Base64UrlMtprotoPasswordStatus password = .valid ↔
      SecretFromBase64UrlMtprotoPassword password ≠ [] ∧
        ValidateSecret (SecretFromBase64UrlMtprotoPassword password) = true := by
  obtain ⟨⟨long, -⟩, letters⟩ := isBase64_iff.mp base64
  obtain ⟨k, few, split⟩ := skipPadding_spec 2 password
  have decoded : SecretFromBase64UrlMtprotoPassword password =
      Base64.pack 0 0 ((Base64UrlInner password).filterMap fun ch => Base64.urlValue ch.toNat) := by
    rw [SecretFromBase64UrlMtprotoPassword, Base64.decodeUrl, values_toLatin1 letters]
  have size : password.length = (Base64UrlInner password).length + k := by
    conv_lhs => rw [split]
    rw [List.length_append, List.length_replicate]
    rfl
  have length : (SecretFromBase64UrlMtprotoPassword password).length = (Base64UrlInner password).length * 3 / 4 := by
    rw [decoded, Base64.length_pack _ (by decide), List.filterMap_length_eq_length.mpr letters]
    omega
  have present : SecretFromBase64UrlMtprotoPassword password ≠ [] := by
    intro empty
    rw [empty, List.length_nil] at length
    omega
  rw [and_iff_right present, validateSecret_iff present]
  match inner : Base64UrlInner password, letters, decoded, length with
  | [], _, _, _ => simp [inner] at size; omega
  | [_], _, _, _ => simp [inner] at size; omega
  | first :: second :: rest, letters, decoded, length =>
      obtain ⟨high, isHigh⟩ := Option.isSome_iff_exists.mp (letters first (by simp))
      obtain ⟨low, isLow⟩ := Option.isSome_iff_exists.mp (letters second (by simp))
      obtain ⟨smallHigh, high3, high7, -, -⟩ := letter_spec isHigh
      obtain ⟨smallLow, -, -, low1, low2⟩ := letter_spec isLow
      rw [List.filterMap_cons, isHigh, List.filterMap_cons, isLow] at decoded
      obtain ⟨others, packed⟩ := Base64.pack_two high low (rest.filterMap fun ch => Base64.urlValue ch.toNat)
      rw [packed] at decoded
      have whole : password = first :: second :: (rest ++ List.replicate k 0x3D) := by
        rw [split]
        exact congrArg (· ++ _) inner
      have dd : (SecretFromBase64UrlMtprotoPassword password).head? = some 0xDD ↔ high = 55 ∧ low / 16 = 1 := by
        rw [decoded]
        exact (@head_eq_iff (high * 4 + low / 16) 0xDD others (by omega) (by decide)).trans (by omega)
      have ee : (SecretFromBase64UrlMtprotoPassword password).head? = some 0xEE ↔ high = 59 ∧ low / 16 = 2 := by
        rw [decoded]
        exact (@head_eq_iff (high * 4 + low / 16) 0xEE others (by omega) (by decide)).trans (by omega)
      rw [dd, ee, high3, high7, low1, low2, length]
      generalize bytes : (first :: second :: rest).length * 3 / 4 = n
      have valid : Base64UrlMtprotoPasswordStatus password = .valid ↔ ¬ n < 16 ∧
          (n = 16 ∨ (n = 17 ∧ first = 0x33 ∧ ((0x51 ≤ second ∧ second ≤ 0x5A) ∨ (0x61 ≤ second ∧ second ≤ 0x66))) ∨
            (n ≥ 21 ∧ first = 0x37 ∧ 0x67 ≤ second ∧ second ≤ 0x76)) := by
        rw [Base64UrlMtprotoPasswordStatus, inner, bytes, whole]
        simp only [List.getElem?_cons_zero, List.getElem?_cons_succ, Option.some.injEq, Option.any_some,
          Bool.and_eq_true, decide_eq_true_eq]
        split_ifs with short accepted
        · simp [short]
        · simp [short, accepted]
        · simp [accepted]
      rw [valid]
      constructor
      · exact fun accepted => accepted.2
      · exact fun accepted => ⟨by omega, accepted⟩

/-! ## The transport -/

/-- A secret that is accepted has a branch of its own, and all but the empty one give a key. -/
theorem create_accepted (accepted : ValidateSecret secret = true) (present : secret ≠ []) :
    ∃ created key, CreatedProtocol.Create secret = some created ∧ created.key = some key ∧ key.length = 16 := by
  rw [validateSecret_iff present] at accepted
  by_cases prefixed : (secret.length ≥ 21 ∧ secret.head? = some 0xEE) ∨ (secret.length = 17 ∧ secret.head? = some 0xDD)
  · have inside : 1 + 16 ≤ secret.length := by omega
    refine ⟨.versionD ((secret.drop 1).take 16), _, ?_, rfl, ?_⟩
    · rw [CreatedProtocol.Create, if_pos prefixed]
      exact congrArg (Option.map _) (subspan_inside inside)
    · rw [List.length_take, List.length_drop]
      omega
  · have sixteen : secret.length = 16 := by tauto
    refine ⟨.version1 secret, secret, ?_, rfl, sixteen⟩
    rw [CreatedProtocol.Create, if_neg prefixed, if_pos sixteen]

theorem status_valid_iff (password : QString) : ProxyData.MtprotoPasswordStatus password = .valid ↔
    ∃ secret, ({ type := .mtproto, password := password } : ProxyData).secretFromMtprotoPassword = some secret ∧
      secret ≠ [] ∧ ValidateSecret secret = true := by
  have typed : ¬ ({ type := .mtproto, password := password } : ProxyData).type ≠ .mtproto := not_not.mpr rfl
  rw [ProxyData.MtprotoPasswordStatus, ProxyData.secretFromMtprotoPassword, if_neg typed]
  by_cases hex : IsHexMtprotoPassword password = true
  · rw [if_pos hex, if_pos hex]
    exact hexStatus_valid_iff hex
  · rw [if_neg hex, if_neg hex]
    by_cases base64 : IsBase64UrlMtprotoPassword password = true
    · rw [if_pos base64, if_pos base64, base64Status_valid_iff base64]
      simp
    · rw [if_neg base64, if_neg base64]
      simp

theorem status_mtproto {proxy : ProxyData} (typed : proxy.type = .mtproto) (host : proxy.host ≠ [])
    (port : proxy.port ≠ 0) : proxy.status = ProxyData.MtprotoPasswordStatus proxy.password := by
  rw [ProxyData.status, if_neg (by simp [typed, host, port]), if_pos typed]

/-- A password is valid exactly when its secret is accepted, and what is accepted can be connected with. -/
theorem secrets_agree :
    (∀ password, ProxyData.MtprotoPasswordStatus password = .valid ↔
      ∃ secret, ({ type := .mtproto, password := password } : ProxyData).secretFromMtprotoPassword = some secret ∧
        secret ≠ [] ∧ ValidateSecret secret = true) ∧
    (∀ proxy : ProxyData, proxy.type = .mtproto → proxy.host ≠ [] → proxy.port ≠ 0 →
      (proxy.status = .valid ↔ ∃ secret, proxy.secretFromMtprotoPassword = some secret ∧
        secret ≠ [] ∧ ValidateSecret secret = true)) ∧
    (∀ secret, ValidateSecret secret = true → secret ≠ [] →
      ∃ created key, CreatedProtocol.Create secret = some created ∧ created.key = some key ∧ 16 ≤ key.length) ∧
    CreatedProtocol.Create [] = some .version0 := by
  refine ⟨status_valid_iff, fun proxy typed host port => ?_, fun secret accepted present => ?_, rfl⟩
  · have same : proxy.secretFromMtprotoPassword =
        ({ type := .mtproto, password := proxy.password } : ProxyData).secretFromMtprotoPassword := by
      simp only [ProxyData.secretFromMtprotoPassword, typed]
    rw [status_mtproto typed host port, same]
    exact status_valid_iff proxy.password
  · obtain ⟨created, key, made, has, length⟩ := create_accepted accepted present
    exact ⟨created, key, made, has, length.ge⟩

/-- The empty secret is accepted, and there is no key in what is made of it. -/
theorem empty_secret_has_no_key : ¬ ∀ secret, ValidateSecret secret = true →
    ∃ created key, CreatedProtocol.Create secret = some created ∧ created.key = some key ∧ 16 ≤ key.length := by
  intro keyed
  obtain ⟨created, key, made, has, -⟩ := keyed [] rfl
  obtain rfl : CreatedProtocol.version0 = created := Option.some.inj made
  cases has

end IMeDesktop.Mtproto
