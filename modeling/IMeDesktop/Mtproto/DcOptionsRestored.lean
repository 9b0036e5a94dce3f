import IMeDesktop.Mtproto.DcOptionsSerialized

/-! # Options that are read again

What `serialize` writes is read back item by item. The reader has limits of its own for
the sizes of an address and a secret, and one item outside of them spoils the whole.

What is kept of the items is told by lookups: an endpoint is kept under its data centre in
the order of the items, and a key under its fingerprint.
-/

namespace IMeDesktop.Mtproto.DcOptions

open Lib Handshake

/-! ## Single values -/

section Values

variable {α β : Type} {stream rest : Bytes}

theorem bind_read {item : Stream α} {next : α → Stream β} {value : α} (read : item stream = some (value, rest)) :
    (item >>= next) stream = next value rest := by
  change (item stream).bind _ = _
  rw [read]
  rfl

theorem pure_read (value : α) : (pure value : Stream α) stream = some (value, stream) := rfl

theorem readRawData_append (data rest : Bytes) : readRawData data.length (data ++ rest) = some (data, rest) := by
  rw [readRawData, if_pos (by simp), List.take_left, List.drop_left]

theorem length_quint32 (value : UInt32) : (quint32 value).length = 4 := by
  rw [quint32, List.length_reverse, length_toLittleEndian]

theorem readUInt32_quint32 (value : UInt32) (rest : Bytes) :
    readUInt32 (quint32 value ++ rest) = some (value, rest) := by
  have raw : readRawData 4 (quint32 value ++ rest) = some (quint32 value, rest) := by
    rw [← length_quint32 value]
    exact readRawData_append _ _
  have small : value.toNat < 256 ^ 4 := value.toNat_lt
  rw [readUInt32, bind_read raw, pure_read, quint32, List.reverse_reverse, fromLittleEndian_toLittleEndian small,
    UInt32.ofNat_toNat]

theorem readInt32_qint32 (value : Int32) (rest : Bytes) : readInt32 (qint32 value ++ rest) = some (value, rest) := by
  rw [readInt32, qint32, bind_read (readUInt32_quint32 _ _), pure_read, Int32.toInt32_toUInt32]

theorem toNat_size {data : Bytes} (short : data.length < 2 ^ 24) : (UInt32.ofNat data.length).toNat = data.length :=
  UInt32.toNat_ofNat_of_lt' (short.trans (by decide))

theorem readBytes_serializeBytes {data : Bytes} (short : data.length < 2 ^ 24) (rest : Bytes) :
    readBytes (serializeBytes data ++ rest) = some (data, rest) := by
  by_cases empty : data = []
  · rw [serializeBytes, if_pos empty, readBytes, bind_read (readUInt32_quint32 _ _), if_pos rfl, pure_read, empty]
  · have size : UInt32.ofNat data.length ≠ 0xFFFFFFFF := by
      intro same
      have length := congrArg UInt32.toNat same
      rw [toNat_size short] at length
      rw [length] at short
      exact absurd short (by decide)
    rw [serializeBytes, if_neg empty, sizeBytes, List.append_assoc, readBytes, bind_read (readUInt32_quint32 _ _),
      if_neg size, toNat_size short, readRawData_append]

/-- A size is read as what it is. -/
theorem readInt32_sizeBytes {data : Bytes} (short : data.length < 2 ^ 24) (rest : Bytes) :
    ∃ size : Int32, readInt32 (sizeBytes data ++ rest) = some (size, rest) ∧ size.toInt = data.length := by
  refine ⟨(UInt32.ofNat data.length).toInt32, ?_, ?_⟩
  · rw [readInt32, sizeBytes, bind_read (readUInt32_quint32 _ _), pure_read]
  · have size : (UInt32.ofNat data.length).toBitVec.toNat = data.length := toNat_size short
    have positive : 2 * (UInt32.ofNat data.length).toBitVec.toNat < 2 ^ 32 := by omega
    exact (BitVec.toInt_eq_toNat_of_lt positive).trans (congrArg Nat.cast size)

end Values

/-! ## Endpoints and keys -/

variable {rest : Bytes} {endpoint : Endpoint} {entry : DcId × RSAPublicKey}

/-- As the server gives it. -/
structure Short (endpoint : Endpoint) : Prop where
  ip : endpoint.ip.length < 2 ^ 24
  secret : endpoint.secret.length < 2 ^ 24

/-- Inside of the limits of the reader. -/
structure Fits (endpoint : Endpoint) : Prop where
  present : endpoint.ip ≠ []
  ip : endpoint.ip.length ≤ 45
  secret : endpoint.secret.length ≤ 32

instance (endpoint : Endpoint) : Decidable (Fits endpoint) :=
  decidable_of_iff (endpoint.ip ≠ [] ∧ endpoint.ip.length ≤ 45 ∧ endpoint.secret.length ≤ 32)
    ⟨fun h => ⟨h.1, h.2.1, h.2.2⟩, fun h => ⟨h.1, h.2, h.3⟩⟩

theorem readSecret_eq {secret : Bytes} (short : secret.length < 2 ^ 24) (rest : Bytes) :
    readSecret (sizeBytes secret ++ (secret ++ rest)) = if secret.length ≤ 32 then some (secret, rest) else none := by
  obtain ⟨size, read, value⟩ := readInt32_sizeBytes short (secret ++ rest)
  have zero : (0 : Int32).toInt = 0 := rfl
  have limit : kMaxSecretSize.toInt = 32 := rfl
  rw [readSecret, bind_read read]
  by_cases inside : secret.length ≤ 32
  · have accepted : ¬ (size < 0 ∨ size > kMaxSecretSize) := by
      rw [gt_iff_lt, Int32.lt_iff_toInt_lt, Int32.lt_iff_toInt_lt, value, zero, limit]
      omega
    rw [if_neg accepted, if_pos inside, value, Int.toNat_natCast, readRawData_append]
  · have refused : size < 0 ∨ size > kMaxSecretSize := by
      rw [gt_iff_lt, Int32.lt_iff_toInt_lt, Int32.lt_iff_toInt_lt, value, zero, limit]
      omega
    rw [if_pos refused, if_neg inside]
    rfl

/-- An endpoint is read as it was written, or refused. -/
theorem readEndpoint_eq (short : Short endpoint) (rest : Bytes) :
    readEndpoint 2 (endpointBytes endpoint ++ rest) = if Fits endpoint then some (endpoint, rest) else none := by
  obtain ⟨size, read, value⟩ := readInt32_sizeBytes short.ip
    (endpoint.ip ++ (sizeBytes endpoint.secret ++ (endpoint.secret ++ rest)))
  have zero : (0 : Int32).toInt = 0 := rfl
  have limit : kMaxIpSize.toInt = 45 := rfl
  simp only [endpointBytes, List.append_assoc]
  rw [readEndpoint, bind_read (readInt32_qint32 _ _), bind_read (readUInt32_quint32 _ _),
    bind_read (readInt32_qint32 _ _), bind_read read]
  by_cases inside : endpoint.ip ≠ [] ∧ endpoint.ip.length ≤ 45
  · have positive := List.length_pos_iff.mpr inside.1
    have accepted : ¬ (size ≤ 0 ∨ size > kMaxIpSize) := by
      rw [gt_iff_lt, Int32.le_iff_toInt_le, Int32.lt_iff_toInt_lt, value, zero, limit]
      omega
    rw [if_neg accepted, value, Int.toNat_natCast, bind_read (readRawData_append _ _), if_pos (by decide)]
    by_cases secret : endpoint.secret.length ≤ 32
    · have secretRead := readSecret_eq short.secret rest
      rw [if_pos secret] at secretRead
      rw [bind_read secretRead, if_pos ⟨inside.1, inside.2, secret⟩]
      rfl
    · have secretRead := readSecret_eq short.secret rest
      rw [if_neg secret] at secretRead
      rw [if_neg fun fits => secret fits.secret]
      exact congrArg (Option.bind · _) secretRead
  · have refused : size ≤ 0 ∨ size > kMaxIpSize := by
      rw [gt_iff_lt, Int32.le_iff_toInt_le, Int32.lt_iff_toInt_lt, value, zero, limit]
      by_cases empty : endpoint.ip = []
      · rw [empty, List.length_nil]
        exact .inl le_rfl
      · exact .inr (by have := not_and.mp inside empty; omega)
    rw [if_pos refused, if_neg fun fits => inside ⟨fits.present, fits.ip⟩]
    rfl

theorem fromBytes_toBytes (number : Nat) : RSAPublicKey.fromBytes (RSAPublicKey.ToBytes number) = number := by
  have same : ((getBytes number).map UInt8.ofNat).map UInt8.toNat = getBytes number := by
    rw [List.map_map]
    refine (List.map_congr_left fun byte member => ?_).trans (List.map_id _)
    have small : byte < 256 := Nat.digits_lt_base (by decide) (List.mem_reverse.mp member)
    exact UInt8.toNat_ofNat_of_lt' small
  rw [RSAPublicKey.fromBytes, RSAPublicKey.ToBytes, same, bigNum_getBytes]

theorem toBytes_eq_nil {number : Nat} : RSAPublicKey.ToBytes number = [] ↔ number = 0 := by
  rw [RSAPublicKey.ToBytes, List.map_eq_nil_iff, getBytes, List.reverse_eq_nil_iff, Nat.digits_eq_nil_iff_eq_zero]

/-- The numbers of a key are as long as what the server gives. -/
structure ShortKey (key : RSAPublicKey) : Prop where
  n : key.getN.length < 2 ^ 24
  e : key.getE.length < 2 ^ 24

theorem ofBytes_eq (key : RSAPublicKey) :
    RSAPublicKey.ofBytes key.getN key.getE = if key.n ≠ 0 ∧ key.e ≠ 0 then some key else none := by
  by_cases present : key.n ≠ 0 ∧ key.e ≠ 0
  · have nonempty : ¬ (key.getN = [] ∨ key.getE = []) := by
      rw [RSAPublicKey.getN, RSAPublicKey.getE, toBytes_eq_nil, toBytes_eq_nil]
      tauto
    rw [RSAPublicKey.ofBytes, if_neg nonempty, if_pos present, RSAPublicKey.getN, RSAPublicKey.getE,
      fromBytes_toBytes, fromBytes_toBytes]
  · have empty : key.getN = [] ∨ key.getE = [] := by
      rw [RSAPublicKey.getN, RSAPublicKey.getE, toBytes_eq_nil, toBytes_eq_nil]
      tauto
    rw [RSAPublicKey.ofBytes, if_pos empty, if_neg present]

theorem readKey_eq (short : ShortKey entry.2) (rest : Bytes) :
    readKey (keyBytes entry ++ rest) = if entry.2.n ≠ 0 ∧ entry.2.e ≠ 0 then some (entry, rest) else none := by
  simp only [keyBytes, List.append_assoc]
  rw [readKey, bind_read (readInt32_qint32 _ _), bind_read (readBytes_serializeBytes short.n _),
    bind_read (readBytes_serializeBytes short.e _), ofBytes_eq]
  split_ifs
  · rfl
  · rfl

/-! ## Lists of items -/

section Items

variable {α β : Type} {item : Stream α} {bytes : α → Bytes} {good : α → Prop} [DecidablePred good]

theorem readItems_good (keep : β → α → β) (items : List α)
    (reads : ∀ a ∈ items, ∀ rest, item (bytes a ++ rest) = if good a then some (a, rest) else none)
    (all : ∀ a ∈ items, good a) (kept : β) (rest : Bytes) :
    readItems item keep items.length kept (items.flatMap bytes ++ rest) = (items.foldl keep kept, some rest) := by
  induction items generalizing kept with
  | nil => rfl
  | cons a items ih =>
      have first := reads a List.mem_cons_self (items.flatMap bytes ++ rest)
      rw [if_pos (all a List.mem_cons_self)] at first
      rw [List.flatMap_cons, List.append_assoc, List.length_cons, readItems, first]
      exact ih (fun b member => reads b (List.mem_cons_of_mem _ member))
        (fun b member => all b (List.mem_cons_of_mem _ member)) _

theorem readItems_bad (keep : β → α → β) (items : List α)
    (reads : ∀ a ∈ items, ∀ rest, item (bytes a ++ rest) = if good a then some (a, rest) else none)
    (some_bad : ∃ a ∈ items, ¬ good a) (kept : β) (rest : Bytes) :
    ∃ result, readItems item keep items.length kept (items.flatMap bytes ++ rest) = (result, none) := by
  induction items generalizing kept with
  | nil =>
      obtain ⟨a, member, -⟩ := some_bad
      cases member
  | cons a items ih =>
      have first := reads a List.mem_cons_self (items.flatMap bytes ++ rest)
      rw [List.flatMap_cons, List.append_assoc, List.length_cons, readItems, first]
      by_cases fine : good a
      · rw [if_pos fine]
        refine ih (fun b member => reads b (List.mem_cons_of_mem _ member)) ?_ _
        obtain ⟨b, member, refused⟩ := some_bad
        cases List.mem_cons.mp member with
        | inl same => exact absurd (same ▸ fine) refused
        | inr member => exact ⟨b, member, refused⟩
      · rw [if_neg fine]
        exact ⟨kept, rfl⟩

end Items

/-! ## What is kept of endpoints -/

variable {data : EndpointsMap} {options : DcOptions}

def Distinct (first second : Endpoint) : Prop :=
  first.id = second.id → ¬ (first.ip = second.ip ∧ first.port = second.port)

/-- What holds of the endpoints of every data centre. -/
structure Sound (data : EndpointsMap) : Prop where
  present : ∀ item ∈ data.entries, item.2 ≠ []
  own : ∀ item ∈ data.entries, ∀ endpoint ∈ item.2, endpoint.id = item.1
  distinct : ∀ item ∈ data.entries, item.2.Pairwise Distinct
  short : ∀ item ∈ data.entries, ∀ endpoint ∈ item.2, Short endpoint

theorem sound_empty : Sound .empty := ⟨nofun, nofun, nofun, nofun⟩

theorem known_iff {list : List Endpoint} :
    (list.any fun other => other.ip = endpoint.ip && other.port = endpoint.port) = true ↔
      ∃ other ∈ list, other.ip = endpoint.ip ∧ other.port = endpoint.port := by
  simp only [List.any_eq_true, Bool.and_eq_true, decide_eq_true_eq]

theorem Sound.applyOne (sound : Sound data) (short : Short endpoint) : Sound (ApplyOneOption data endpoint).1 := by
  unfold ApplyOneOption
  cases found : data.find? endpoint.id with
  | none =>
      have cases_mem : ∀ item ∈ (data.emplace endpoint.id [endpoint]).entries,
          item ∈ data.entries ∨ item = (endpoint.id, [endpoint]) := fun item member =>
        (SortedMap.mem_emplace.mp member).imp_right And.left
      refine ⟨fun item member => ?_, fun item member => ?_, fun item member => ?_, fun item member => ?_⟩
      all_goals obtain old | rfl := cases_mem item member
      · exact sound.present item old
      · exact List.cons_ne_nil _ _
      · exact sound.own item old
      · exact fun other member => congrArg Endpoint.id (List.mem_singleton.mp member)
      · exact sound.distinct item old
      · exact List.pairwise_singleton _ _
      · exact sound.short item old
      · exact fun other member => List.mem_singleton.mp member ▸ short
  | some list =>
      have old := SortedMap.find?_eq_some.mp found
      by_cases known : (list.any fun other => other.ip = endpoint.ip && other.port = endpoint.port) = true
      · simp only [known, if_true]
        exact sound
      · simp only [known]
        have cases_mem : ∀ item ∈ (data.set endpoint.id (list ++ [endpoint])).entries,
            item = (endpoint.id, list ++ [endpoint]) ∨ item ∈ data.entries := fun item member =>
          (SortedMap.mem_set.mp member).imp_right And.left
        refine ⟨fun item member => ?_, fun item member => ?_, fun item member => ?_, fun item member => ?_⟩
        all_goals obtain rfl | other := cases_mem item member
        · exact List.append_ne_nil_of_right_ne_nil _ (List.cons_ne_nil _ _)
        · exact sound.present item other
        · intro other member
          cases List.mem_append.mp member with
          | inl member => exact sound.own _ old other member
          | inr member => exact congrArg Endpoint.id (List.mem_singleton.mp member)
        · exact sound.own item other
        · refine List.pairwise_append.mpr ⟨sound.distinct _ old, List.pairwise_singleton _ _, ?_⟩
          intro first member second last _ same
          rw [List.mem_singleton.mp last] at same
          exact known (known_iff.mpr ⟨first, member, same⟩)
        · exact sound.distinct item other
        · intro other member
          cases List.mem_append.mp member with
          | inl member => exact sound.short _ old other member
          | inr member => exact List.mem_singleton.mp member ▸ short
        · exact sound.short item other

theorem applyOneGuarded_foldl (list : List Endpoint) (options : DcOptions) :
    list.foldl applyOneGuarded options =
      { options with data := list.foldl (fun data endpoint => (ApplyOneOption data endpoint).1) options.data } := by
  induction list generalizing options with
  | nil => rfl
  | cons endpoint list ih => rw [List.foldl_cons, ih]; rfl

/-- Endpoints are kept in their order. -/
theorem find?_applied (list : List Endpoint) (distinct : list.Pairwise Distinct) (id : DcId) :
    (list.foldl (fun data endpoint => (ApplyOneOption data endpoint).1) (.empty : EndpointsMap)).find? id =
      if (list.filter fun endpoint => endpoint.id = id) = [] then none
      else some (list.filter fun endpoint => endpoint.id = id) := by
  induction list using List.reverseRecOn generalizing id with
  | nil => rfl
  | append_singleton list endpoint ih =>
      obtain ⟨before, -, last⟩ := List.pairwise_append.mp distinct
      have kept := ih before
      rw [List.foldl_append, List.foldl_cons, List.foldl_nil]
      generalize list.foldl (fun data endpoint => (ApplyOneOption data endpoint).1) .empty = data at kept ⊢
      have unknown : ((list.filter fun other => other.id = endpoint.id).any fun other =>
          other.ip = endpoint.ip && other.port = endpoint.port) = false := by
        refine Bool.eq_false_iff.mpr fun known => ?_
        obtain ⟨other, member, same⟩ := known_iff.mp known
        obtain ⟨member, own⟩ := List.mem_filter.mp member
        exact last other member endpoint List.mem_cons_self (of_decide_eq_true own) same
      have filtered : ((list ++ [endpoint]).filter fun other => other.id = id) =
          (list.filter fun other => other.id = id) ++ if endpoint.id = id then [endpoint] else [] := by
        rw [List.filter_append]
        congr 1
        by_cases own : endpoint.id = id
        · simp [own]
        · simp [own]
      have added : ∀ j, (ApplyOneOption data endpoint).1.find? j =
          if j = endpoint.id then some ((list.filter fun other => other.id = endpoint.id) ++ [endpoint])
          else data.find? j := by
        intro j
        unfold ApplyOneOption
        rw [kept endpoint.id]
        by_cases first : (list.filter fun other => other.id = endpoint.id) = []
        · have missing : data.find? endpoint.id = none := (kept endpoint.id).trans (if_pos first)
          rw [if_pos first, first]
          simp only [SortedMap.find?_emplace, missing, List.nil_append, Option.getD_none]
        · rw [if_neg first]
          simp only [unknown, Bool.false_eq_true, if_false]
          exact SortedMap.find?_set _ _ _ _
      rw [added, filtered]
      by_cases own : id = endpoint.id
      · subst own
        simp
      · rw [if_neg own, if_neg (Ne.symm own), List.append_nil, kept id]

/-- The endpoints of one data centre among those of all. -/
theorem filter_endpoints {entries : List (DcId × List Endpoint)} (sorted : entries.Pairwise fun a b => a.1 < b.1)
    (own : ∀ item ∈ entries, ∀ endpoint ∈ item.2, endpoint.id = item.1) (id : DcId) :
    ((entries.flatMap Prod.snd).filter fun endpoint => endpoint.id = id) =
      ((entries.find? fun e => decide (e.1 = id)).map Prod.snd).getD [] := by
  induction entries with
  | nil => rfl
  | cons item entries ih =>
      obtain ⟨above, sorted⟩ := List.pairwise_cons.mp sorted
      have rest := ih sorted fun other member => own other (List.mem_cons_of_mem _ member)
      rw [List.flatMap_cons, List.filter_append, rest]
      by_cases same : item.1 = id
      · have all : item.2.filter (fun endpoint => decide (endpoint.id = id)) = item.2 :=
          List.filter_eq_self.mpr fun endpoint member =>
            decide_eq_true ((own item List.mem_cons_self endpoint member).trans same)
        have none : entries.find? (fun e => decide (e.1 = id)) = none := by
          refine List.find?_eq_none.mpr fun other member => ?_
          have later := above other member
          rw [same] at later
          simpa using ne_of_gt later
        rw [all, none, List.find?_cons_of_pos (by simpa using same)]
        exact List.append_nil _
      · have none : item.2.filter (fun endpoint => decide (endpoint.id = id)) = [] := by
          refine List.filter_eq_nil_iff.mpr fun endpoint member => ?_
          rw [own item List.mem_cons_self endpoint member]
          simpa using same
        rw [none, List.nil_append, List.find?_cons_of_neg (by simpa using same)]

theorem applied_entries (sound : Sound data) :
    (data.entries.flatMap Prod.snd).foldl (fun data endpoint => (ApplyOneOption data endpoint).1) .empty = data := by
  have distinct : (data.entries.flatMap Prod.snd).Pairwise Distinct := by
    refine List.pairwise_flatMap.mpr ⟨sound.distinct, ?_⟩
    refine data.sorted.imp_of_mem fun {a b} memberA memberB less first memberFirst second memberSecond same => ?_
    rw [sound.own a memberA first memberFirst, sound.own b memberB second memberSecond] at same
    exact absurd same (ne_of_lt less)
  refine SortedMap.ext_find? fun id => ?_
  have filtered : ((data.entries.flatMap Prod.snd).filter fun endpoint => endpoint.id = id) =
      (data.find? id).getD [] := filter_endpoints data.sorted sound.own id
  rw [find?_applied _ distinct id, filtered]
  cases found : data.find? id with
  | none => rfl
  | some list => exact if_neg (sound.present _ (SortedMap.find?_eq_some.mp found))

end IMeDesktop.Mtproto.DcOptions
