import IMeDesktop.Mtproto.DcOptionsRestored

/-! # Options survive a restart

The options are changed by the server only, and every state they get into is read again as
it was, unless the reader refuses an item or an item is not written: the limits for what
is kept and for what is read are not the same.
-/

namespace IMeDesktop.Mtproto.DcOptions

open Lib Handshake

variable {code : KeyCode} {options : DcOptions}

abbrev KeysMap := SortedMap DcId (SortedMap (Fin (2 ^ 64)) RSAPublicKey)

variable {keys : KeysMap}

/-! ## What is kept of keys -/

/-- What holds of the keys of every CDN. -/
structure SoundKeys (code : KeyCode) (keys : KeysMap) : Prop where
  present : ∀ item ∈ keys.entries, item.2.entries ≠ []
  own : ∀ item ∈ keys.entries, ∀ entry ∈ item.2.entries, code.fingerprint entry.2 = entry.1
  short : ∀ item ∈ keys.entries, ∀ entry ∈ item.2.entries, ShortKey entry.2

theorem soundKeys_empty : SoundKeys code .empty := ⟨nofun, nofun, nofun⟩

theorem mem_emplaced {dcId : DcId} {key : RSAPublicKey} {entry : Fin (2 ^ 64) × RSAPublicKey}
    (member : entry ∈ (((keys.find? dcId).getD .empty).emplace (code.fingerprint key) key).entries) :
    (∃ item ∈ keys.entries, entry ∈ item.2.entries) ∨ entry = (code.fingerprint key, key) := by
  refine (SortedMap.mem_emplace.mp member).imp (fun old => ?_) And.left
  cases found : keys.find? dcId with
  | none =>
      rw [found] at old
      cases old
  | some list =>
      rw [found] at old
      exact ⟨_, SortedMap.find?_eq_some.mp found, old⟩

theorem SoundKeys.emplaceKey (sound : SoundKeys code keys) (dcId : DcId) {key : RSAPublicKey} (short : ShortKey key) :
    SoundKeys code (emplaceKey code keys dcId key) := by
  have cases_mem : ∀ item ∈ (DcOptions.emplaceKey code keys dcId key).entries,
      item = (dcId, ((keys.find? dcId).getD .empty).emplace (code.fingerprint key) key) ∨ item ∈ keys.entries :=
    fun item member => (SortedMap.mem_set.mp member).imp_right And.left
  refine ⟨fun item member => ?_, fun item member => ?_, fun item member => ?_⟩
  all_goals obtain rfl | other := cases_mem item member
  · intro empty
    have present : (((keys.find? dcId).getD .empty).emplace (code.fingerprint key) key).contains
        (code.fingerprint key) = true := SortedMap.contains_emplace.mpr (.inr rfl)
    obtain ⟨value, member⟩ := SortedMap.contains_iff.mp present
    rw [empty] at member
    cases member
  · exact sound.present item other
  · intro entry member
    obtain ⟨item, inside, member⟩ | rfl := mem_emplaced member
    · exact sound.own item inside entry member
    · rfl
  · exact sound.own item other
  · intro entry member
    obtain ⟨item, inside, member⟩ | rfl := mem_emplaced member
    · exact sound.short item inside entry member
    · exact short
  · exact sound.short item other

def collect (code : KeyCode) (list : List (DcId × RSAPublicKey)) : KeysMap :=
  list.foldl (fun keys entry => emplaceKey code keys entry.1 entry.2) .empty

theorem collect_concat (list : List (DcId × RSAPublicKey)) (entry : DcId × RSAPublicKey) :
    collect code (list ++ [entry]) = emplaceKey code (collect code list) entry.1 entry.2 := by
  rw [collect, List.foldl_append]
  rfl

theorem find?_emplaceKey (dcId other : DcId) (key : RSAPublicKey) :
    (emplaceKey code keys dcId key).find? other =
      if other = dcId then some (((keys.find? dcId).getD .empty).emplace (code.fingerprint key) key)
      else keys.find? other := SortedMap.find?_set _ _ _ _

theorem isSome_collect (list : List (DcId × RSAPublicKey)) (dcId : DcId) :
    ((collect code list).find? dcId).isSome = list.any fun entry => entry.1 = dcId := by
  induction list using List.reverseRecOn with
  | nil => rfl
  | append_singleton list entry ih =>
      rw [collect_concat, find?_emplaceKey, List.any_append, ← ih]
      by_cases same : dcId = entry.1
      · simp [same]
      · simp [same, Ne.symm same]

/-- Of the keys with one fingerprint the first is kept. -/
theorem find?_collect (list : List (DcId × RSAPublicKey)) (dcId : DcId) (fingerprint : Fin (2 ^ 64)) :
    (((collect code list).find? dcId).getD .empty).find? fingerprint =
      (list.find? fun entry => entry.1 = dcId && code.fingerprint entry.2 = fingerprint).map Prod.snd := by
  induction list using List.reverseRecOn with
  | nil => rfl
  | append_singleton list entry ih =>
      rw [collect_concat, find?_emplaceKey, List.find?_append]
      by_cases same : dcId = entry.1
      · subst same
        rw [if_pos rfl, Option.getD_some, SortedMap.find?_emplace]
        by_cases print : fingerprint = code.fingerprint entry.2
        · subst print
          rw [if_pos rfl, ih, List.find?_cons_of_pos (by simp)]
          cases list.find? fun other => other.1 = entry.1 && code.fingerprint other.2 = code.fingerprint entry.2 with
          | none => rfl
          | some other => rfl
        · rw [if_neg print, ih, List.find?_cons_of_neg (by simpa using Ne.symm print), List.find?_nil, Option.or_none]
      · have nothing : ([entry].find? fun entry => entry.1 = dcId && code.fingerprint entry.2 = fingerprint) = none :=
          List.find?_eq_none.mpr (by simp [Ne.symm same])
        rw [if_neg same, ih, nothing, Option.or_none]

theorem mem_serializedKeys {entry : DcId × RSAPublicKey} : entry ∈ serializedKeys keys ↔
    ∃ item ∈ keys.entries, item.1 = entry.1 ∧ ∃ kept ∈ item.2.entries, kept.2 = entry.2 := by
  simp only [serializedKeys, List.mem_flatMap, List.mem_map, Prod.ext_iff]
  constructor
  · rintro ⟨item, inside, kept, member, id, key⟩
    exact ⟨item, inside, id, kept, member, key⟩
  · rintro ⟨item, inside, id, kept, member, key⟩
    exact ⟨item, inside, kept, member, id, key⟩

/-- The serialized keys of one CDN with one fingerprint. -/
theorem kept_of_serialized (sound : SoundKeys code keys) {dcId : DcId} {list : SortedMap (Fin (2 ^ 64)) RSAPublicKey}
    (inside : (dcId, list) ∈ keys.entries) {entry : DcId × RSAPublicKey} (member : entry ∈ serializedKeys keys)
    (id : entry.1 = dcId) : (code.fingerprint entry.2, entry.2) ∈ list.entries := by
  obtain ⟨item, there, same, kept, member, key⟩ := mem_serializedKeys.mp member
  obtain rfl := keys.entry_unique there inside (same.trans id)
  have print := sound.own _ there kept member
  rw [← key, print]
  exact member

theorem collect_serializedKeys (sound : SoundKeys code keys) : collect code (serializedKeys keys) = keys := by
  refine SortedMap.ext_find? fun dcId => ?_
  have known := @isSome_collect code (serializedKeys keys) dcId
  have kept := @find?_collect code (serializedKeys keys) dcId
  cases found : keys.find? dcId with
  | none =>
      have nothing : ((serializedKeys keys).any fun entry => entry.1 = dcId) = false := by
        refine List.any_eq_false.mpr fun entry member same => ?_
        obtain ⟨item, inside, id, -⟩ := mem_serializedKeys.mp member
        refine SortedMap.find?_eq_none.mp found item.2 ?_
        rw [← of_decide_eq_true same, ← id]
        exact inside
      rw [nothing] at known
      exact Option.not_isSome_iff_eq_none.mp (by simp [known])
  | some list =>
      have inside := SortedMap.find?_eq_some.mp found
      have present : ((serializedKeys keys).any fun entry => entry.1 = dcId) = true := by
        obtain ⟨first, member⟩ := List.exists_mem_of_ne_nil _ (sound.present _ inside)
        exact List.any_eq_true.mpr ⟨(dcId, first.2),
          mem_serializedKeys.mpr ⟨_, inside, rfl, first, member, rfl⟩, decide_eq_true rfl⟩
      rw [present] at known
      obtain ⟨result, collected⟩ := Option.isSome_iff_exists.mp known
      rw [collected]
      refine congrArg some (SortedMap.ext_find? fun fingerprint => ?_)
      have here := kept fingerprint
      rw [collected, Option.getD_some] at here
      rw [here]
      cases listed : list.find? fingerprint with
      | none =>
          rw [List.find?_eq_none.mpr, Option.map_none]
          intro entry member matches_
          obtain ⟨id, print⟩ := (Bool.and_eq_true _ _).mp matches_
          have kept := kept_of_serialized sound inside member (of_decide_eq_true id)
          rw [of_decide_eq_true print] at kept
          exact SortedMap.find?_eq_none.mp listed _ kept
      | some key =>
          have member := SortedMap.find?_eq_some.mp listed
          have print : code.fingerprint key = fingerprint := sound.own _ inside _ member
          cases first : (serializedKeys keys).find? fun entry =>
              entry.1 = dcId && code.fingerprint entry.2 = fingerprint with
          | none =>
              refine absurd ?_ (List.find?_eq_none.mp first (dcId, key)
                (mem_serializedKeys.mpr ⟨_, inside, rfl, _, member, rfl⟩))
              simp [print]
          | some entry =>
              have chosen := List.find?_some first
              obtain ⟨id, same⟩ := (Bool.and_eq_true _ _).mp chosen
              have kept := kept_of_serialized sound inside (List.mem_of_find?_eq_some first) (of_decide_eq_true id)
              have only := list.entry_unique kept member (of_decide_eq_true same)
              exact congrArg some (congrArg Prod.snd only)

/-! ## Every state -/

/-- What holds of every state that comes from the server. -/
structure SoundOptions (code : KeyCode) (options : DcOptions) : Prop where
  data : Sound options.data
  cdnDcIds : options.cdnDcIds = computeCdnDcIds options.data
  cdnPublicKeys : SoundKeys code options.cdnPublicKeys

inductive Step where
  | constructFromBuiltIn
  | setFromList (list : List MTPDcOption)
  | addFromList (list : List MTPDcOption)
  | setCDNConfig (config : List MTPDcdnPublicKey)

def step (code : KeyCode) (options : DcOptions) : Step → DcOptions
  | .constructFromBuiltIn => options.constructFromBuiltIn
  | .setFromList list => options.setFromList list
  | .addFromList list => options.addFromList list
  | .setCDNConfig config => options.setCDNConfig code config

def run (code : KeyCode) (options : DcOptions) (steps : List Step) : DcOptions := steps.foldl (step code) options

theorem sound_applied {list : List Endpoint} (short : ∀ endpoint ∈ list, Short endpoint) {data : EndpointsMap}
    (sound : Sound data) : Sound (list.foldl (fun data endpoint => (ApplyOneOption data endpoint).1) data) := by
  induction list generalizing data with
  | nil => exact sound
  | cons endpoint list ih =>
      exact ih (fun other member => short other (List.mem_cons_of_mem _ member))
        (sound.applyOne (short endpoint List.mem_cons_self))

theorem short_endpointOf (option : MTPDdcOption) : Short (endpointOf option) := by
  refine ⟨option.vip_address.2, ?_⟩
  cases secret : option.vsecret with
  | none =>
      simp only [endpointOf, secret]
      decide
  | some bytes =>
      simp only [endpointOf, secret]
      exact bytes.2

theorem short_builtIn (environment : Environment) : ∀ endpoint ∈
    builtIn f_static (if environment = .test then kBuiltInDcsTest else kBuiltInDcs) ++
      builtIn (f_static ||| f_ipv6) (if environment = .test then kBuiltInDcsIPv6Test else kBuiltInDcsIPv6),
    Short endpoint := by
  have small : ∀ endpoint ∈
      builtIn f_static (if environment = .test then kBuiltInDcsTest else kBuiltInDcs) ++
        builtIn (f_static ||| f_ipv6) (if environment = .test then kBuiltInDcsIPv6Test else kBuiltInDcsIPv6),
      endpoint.ip.length < 2 ^ 24 ∧ endpoint.secret.length < 2 ^ 24 := by
    cases environment
    · decide +kernel
    · decide +kernel
  exact fun endpoint member => ⟨(small endpoint member).1, (small endpoint member).2⟩

theorem SoundOptions.constructFromBuiltIn (keys : SoundKeys code options.cdnPublicKeys) :
    SoundOptions code options.constructFromBuiltIn := by
  have data := sound_applied (short_builtIn options.environment) sound_empty
  simp only [DcOptions.constructFromBuiltIn, applyOneGuarded_foldl]
  exact ⟨data, rfl, keys⟩

theorem SoundOptions.processFromList (sound : SoundOptions code options) (list : List MTPDcOption)
    (overwriting : Bool) : SoundOptions code (options.processFromList list overwriting) := by
  have data : Sound (list.reduceOption.foldl (fun data option => (ApplyOneOption data (endpointOf option)).1)
      (if overwriting then .empty else options.data)) := by
    have start : Sound (if overwriting then .empty else options.data) := by
      cases overwriting
      · exact sound.data
      · exact sound_empty
    have mapped := @sound_applied (list.reduceOption.map endpointOf)
      (List.forall_mem_map.mpr fun option _ => short_endpointOf option) _ start
    rw [List.foldl_map] at mapped
    exact mapped
  by_cases empty : list = []
  · rw [DcOptions.processFromList, if_pos empty]
    exact sound
  · rw [DcOptions.processFromList, if_neg empty]
    by_cases same : CountOptionsDifference options.data (list.reduceOption.foldl
        (fun data option => (ApplyOneOption data (endpointOf option)).1)
        (if overwriting then .empty else options.data)) = []
    · simp only [if_pos same]
      exact ⟨sound.data, rfl, sound.cdnPublicKeys⟩
    · simp only [if_neg same]
      exact ⟨data, rfl, sound.cdnPublicKeys⟩

theorem soundKeys_config (config : List MTPDcdnPublicKey) {keys : KeysMap} (sound : SoundKeys code keys) :
    SoundKeys code (config.foldl (addCdnKey code) keys) := by
  induction config generalizing keys with
  | nil => exact sound
  | cons key config ih =>
      refine ih ?_
      unfold addCdnKey
      cases parsed : code.readPem key.vpublic_key with
      | none => exact sound
      | some value =>
          obtain ⟨n, e⟩ := code.readPem_width _ _ parsed
          exact sound.emplaceKey _ ⟨n.trans_lt key.vpublic_key.2, e.trans_lt key.vpublic_key.2⟩

theorem SoundOptions.step (sound : SoundOptions code options) (next : Step) :
    SoundOptions code (step code options next) := by
  cases next with
  | constructFromBuiltIn => exact SoundOptions.constructFromBuiltIn sound.cdnPublicKeys
  | setFromList list => exact sound.processFromList list true
  | addFromList list => exact sound.processFromList list false
  | setCDNConfig config => exact ⟨sound.data, rfl, soundKeys_config config soundKeys_empty⟩

theorem SoundOptions.run (sound : SoundOptions code options) (steps : List Step) :
    SoundOptions code (run code options steps) := by
  induction steps generalizing options with
  | nil => exact sound
  | cons next steps ih => exact ih (sound.step next)

theorem soundOptions_new (environment : Environment) : SoundOptions code (new environment) :=
  SoundOptions.constructFromBuiltIn soundKeys_empty

/-! ## Written and read again -/

/-- What is written of the options is read as the same options. -/
def Survives (code : KeyCode) (options : DcOptions) : Prop :=
  ∃ serialized restored, options.serialize = some serialized ∧
    constructFromSerialized code (new options.environment) serialized = (true, restored) ∧
    restored.data = options.data ∧ restored.cdnDcIds = options.cdnDcIds ∧
    restored.cdnPublicKeys = options.cdnPublicKeys

/-- Inside of the limits of what is written and of what is read. -/
structure Serializable (options : DcOptions) : Prop where
  lasting : ∀ item ∈ options.data.entries, isTemporaryDcId item.1 = false
  fits : ∀ item ∈ options.data.entries, ∀ endpoint ∈ item.2, Fits endpoint
  numbers : ∀ keysInDc ∈ options.cdnPublicKeys.entries, ∀ entry ∈ keysInDc.2.entries, entry.2.n ≠ 0 ∧ entry.2.e ≠ 0
  optionsCount : (serializedOptions options.data).length < 2 ^ 31
  keysCount : (serializedKeys options.cdnPublicKeys).length < 2 ^ 31

theorem readHeader_eq (count : UInt32) (rest : Bytes) :
    readHeader (qint32 (-kVersion) ++ (quint32 count ++ rest)) = some ((2, count), rest) := by
  rw [readHeader, bind_read (readInt32_qint32 _ _), if_pos (by decide), bind_read (readUInt32_quint32 _ _)]
  rfl

/-- The endpoints that are written are the ones of some of the data centres. -/
def lasting (data : EndpointsMap) : EndpointsMap :=
  ⟨data.entries.filter fun item => !isTemporaryDcId item.1, data.sorted.filter _⟩

theorem sound_lasting {data : EndpointsMap} (sound : Sound data) : Sound (lasting data) :=
  ⟨fun item member => sound.present item (List.mem_of_mem_filter member),
    fun item member => sound.own item (List.mem_of_mem_filter member),
    fun item member => sound.distinct item (List.mem_of_mem_filter member),
    fun item member => sound.short item (List.mem_of_mem_filter member)⟩

theorem lasting_eq_iff {data : EndpointsMap} :
    lasting data = data ↔ ∀ item ∈ data.entries, isTemporaryDcId item.1 = false := by
  rw [SortedMap.ext_iff, lasting, List.filter_eq_self]
  simp only [Bool.not_eq_true']

theorem mem_serializedOptions {data : EndpointsMap} {endpoint : Endpoint} : endpoint ∈ serializedOptions data ↔
    ∃ item ∈ (lasting data).entries, endpoint ∈ item.2 := List.mem_flatMap

theorem cdnPublicKeys_new (environment : Environment) : (new environment).cdnPublicKeys = .empty := by
  simp only [new, constructFromBuiltIn, applyOneGuarded_foldl]
  rfl

theorem toNat_count {count : Nat} (small : count < 2 ^ 31) : (UInt32.ofNat count).toNat = count :=
  UInt32.toNat_ofNat_of_lt' (small.trans (by decide))

theorem serialize_eq_some {serialized : Bytes} (written : options.serialize = some serialized) :
    (serializedOptions options.data).length < 2 ^ 31 ∧ (serializedKeys options.cdnPublicKeys).length < 2 ^ 31 ∧
      serialized = qint32 (-kVersion) ++ (quint32 (UInt32.ofNat (serializedOptions options.data).length) ++
        ((serializedOptions options.data).flatMap endpointBytes ++
          (quint32 (UInt32.ofNat (serializedKeys options.cdnPublicKeys).length) ++
            ((serializedKeys options.cdnPublicKeys).flatMap keyBytes ++ [])))) := by
  simp only [serialize] at written
  split_ifs at written with counts
  refine ⟨counts.1, counts.2, ?_⟩
  simp only [← Option.some.inj written, List.append_assoc, List.append_nil]

theorem read_serializedOptions {data : EndpointsMap} (sound : Sound data) :
    ∀ endpoint ∈ serializedOptions data, ∀ rest, readEndpoint 2 (endpointBytes endpoint ++ rest) =
      if Fits endpoint then some (endpoint, rest) else none := by
  intro endpoint member
  obtain ⟨item, inside, member⟩ := mem_serializedOptions.mp member
  exact readEndpoint_eq ((sound_lasting sound).short item inside endpoint member)

theorem read_serializedKeys (sound : SoundKeys code keys) :
    ∀ entry ∈ serializedKeys keys, ∀ rest, readKey (keyBytes entry ++ rest) =
      if entry.2.n ≠ 0 ∧ entry.2.e ≠ 0 then some (entry, rest) else none := by
  intro entry member
  obtain ⟨item, inside, -, kept, member, key⟩ := mem_serializedKeys.mp member
  exact readKey_eq (key ▸ sound.short item inside kept member)

section Reading

variable {serialized : Bytes} {environment : Environment}

theorem keysPart_ne_nil (count : UInt32) (rest : Bytes) : quint32 count ++ rest ≠ [] := by
  intro empty
  have length := congrArg List.length empty
  rw [List.length_append, length_quint32] at length
  simp at length

/-- All is read back when nothing is refused. -/
theorem constructFromSerialized_good (sound : SoundOptions code options)
    (written : options.serialize = some serialized)
    (fits : ∀ endpoint ∈ serializedOptions options.data, Fits endpoint)
    (numbers : ∀ entry ∈ serializedKeys options.cdnPublicKeys, entry.2.n ≠ 0 ∧ entry.2.e ≠ 0) :
    constructFromSerialized code (new environment) serialized =
      (true, unlocked { new environment with
        data := lasting options.data, cdnPublicKeys := options.cdnPublicKeys }) := by
  obtain ⟨optionsCount, keysCount, rfl⟩ := serialize_eq_some written
  have endpoints := readItems_good applyOneGuarded (serializedOptions options.data)
    (read_serializedOptions sound.data) fits
  have kept := readItems_good (fun keys entry => emplaceKey code keys entry.1 entry.2)
    (serializedKeys options.cdnPublicKeys) (read_serializedKeys sound.cdnPublicKeys) numbers
  have data : (serializedOptions options.data).foldl applyOneGuarded { new environment with data := .empty } =
      { new environment with data := lasting options.data } := by
    rw [applyOneGuarded_foldl]
    congr 1
    exact applied_entries (sound_lasting sound.data)
  have collected : (serializedKeys options.cdnPublicKeys).foldl
      (fun keys entry => emplaceKey code keys entry.1 entry.2) (new environment).cdnPublicKeys =
        options.cdnPublicKeys := by
    rw [cdnPublicKeys_new]
    exact collect_serializedKeys sound.cdnPublicKeys
  rw [constructFromSerialized, readHeader_eq]
  simp only [toNat_count optionsCount, endpoints, data]
  rw [if_pos ⟨keysPart_ne_nil _ _, by decide⟩, readUInt32_quint32]
  simp only [toNat_count keysCount, kept, collected]

/-- One item that is refused spoils all. -/
theorem constructFromSerialized_bad (sound : SoundOptions code options)
    (written : options.serialize = some serialized)
    (refused : (∃ endpoint ∈ serializedOptions options.data, ¬ Fits endpoint) ∨
      ∃ entry ∈ serializedKeys options.cdnPublicKeys, ¬ (entry.2.n ≠ 0 ∧ entry.2.e ≠ 0)) :
    (constructFromSerialized code (new environment) serialized).1 = false := by
  obtain ⟨optionsCount, keysCount, rfl⟩ := serialize_eq_some written
  rw [constructFromSerialized, readHeader_eq]
  by_cases outside : ∃ endpoint ∈ serializedOptions options.data, ¬ Fits endpoint
  · obtain ⟨result, read⟩ := readItems_bad applyOneGuarded _ (read_serializedOptions sound.data) outside
      { new environment with data := .empty } (quint32 (UInt32.ofNat (serializedKeys options.cdnPublicKeys).length) ++
        ((serializedKeys options.cdnPublicKeys).flatMap keyBytes ++ []))
    simp only [toNat_count optionsCount, read]
  · have fits : ∀ endpoint ∈ serializedOptions options.data, Fits endpoint := by
      intro endpoint member
      by_contra unfit
      exact outside ⟨endpoint, member, unfit⟩
    have endpoints := readItems_good applyOneGuarded (serializedOptions options.data)
      (read_serializedOptions sound.data) fits
    simp only [toNat_count optionsCount, endpoints]
    rw [if_pos ⟨keysPart_ne_nil _ _, by decide⟩, readUInt32_quint32]
    obtain ⟨result, read⟩ := readItems_bad (fun keys entry => emplaceKey code keys entry.1 entry.2) _
      (read_serializedKeys sound.cdnPublicKeys) (refused.resolve_left outside)
      ((serializedOptions options.data).foldl applyOneGuarded
        { new environment with data := .empty }).cdnPublicKeys []
    simp only [toNat_count keysCount, read]

end Reading

theorem SoundOptions.survives_iff (sound : SoundOptions code options) : Survives code options ↔ Serializable options := by
  constructor
  · rintro ⟨serialized, restored, written, read, data, -, -⟩
    obtain ⟨optionsCount, keysCount, -⟩ := serialize_eq_some written
    have accepted : ¬ ((∃ endpoint ∈ serializedOptions options.data, ¬ Fits endpoint) ∨
        ∃ entry ∈ serializedKeys options.cdnPublicKeys, ¬ (entry.2.n ≠ 0 ∧ entry.2.e ≠ 0)) := by
      intro refused
      have failed := @constructFromSerialized_bad code options serialized options.environment sound written refused
      rw [read] at failed
      cases failed
    push Not at accepted
    obtain ⟨fits, numbers⟩ := accepted
    rw [constructFromSerialized_good sound written fits numbers] at read
    obtain ⟨-, rfl⟩ := Prod.mk.inj read
    have lasts := lasting_eq_iff.mp data
    refine ⟨lasts, fun item member endpoint inside => fits endpoint ?_, fun item member entry inside => ?_,
      optionsCount, keysCount⟩
    · refine mem_serializedOptions.mpr ⟨item, ?_, inside⟩
      rw [lasting_eq_iff.mpr lasts]
      exact member
    · exact numbers (item.1, entry.2) (mem_serializedKeys.mpr ⟨item, member, rfl, entry, inside, rfl⟩)
  · intro serializable
    have counts := And.intro serializable.optionsCount serializable.keysCount
    have same := lasting_eq_iff.mpr serializable.lasting
    obtain ⟨serialized, written⟩ : ∃ serialized, options.serialize = some serialized := ⟨_, if_pos counts⟩
    refine ⟨serialized, _, written, constructFromSerialized_good sound written ?_ ?_, same, ?_, rfl⟩
    · intro endpoint member
      obtain ⟨item, inside, member⟩ := mem_serializedOptions.mp member
      exact serializable.fits item (List.mem_of_mem_filter inside) endpoint member
    · intro entry member
      obtain ⟨item, inside, -, kept, member, key⟩ := mem_serializedKeys.mp member
      exact key ▸ serializable.numbers item inside kept member
    · rw [sound.cdnDcIds]
      exact congrArg computeCdnDcIds same

/-- Options from the server survive exactly inside of the limits. -/
theorem options_survive_iff (code : KeyCode) (environment : Environment) (steps : List Step) :
    Survives code (run code (new environment) steps) ↔ Serializable (run code (new environment) steps) :=
  ((soundOptions_new environment).run steps).survives_iff

/-- An option with a secret for a longer domain. -/
def longSecret : MTPDdcOption where
  vid := 2
  vflags := 0
  vip_address := ⟨[0x31, 0x2E, 0x31, 0x2E, 0x31, 0x2E, 0x31], by decide⟩
  vport := 443
  vsecret := some ⟨0xEE :: List.replicate 32 0x61, by decide⟩

theorem fingerprint_room : 0 < 2 ^ 64 := by decide

/-- Code that reads no key. -/
def noKeys : KeyCode where
  readPem _ := none
  readPem_width _ _ := nofun
  fingerprint _ := ⟨0, fingerprint_room⟩

/-- The server may send it, and the options are lost. -/
theorem longSecret_lost : ValidateSecret (endpointOf longSecret).secret = true ∧
    ¬ Survives noKeys (run noKeys (new .production) [.addFromList [some longSecret]]) := by
  refine ⟨by decide, fun survives => ?_⟩
  have serializable := ((soundOptions_new .production).run [.addFromList [some longSecret]]).survives_iff.mp survives
  have kept : ∃ item ∈ ((new .production).addFromList [some longSecret]).data.entries,
      endpointOf longSecret ∈ item.2 := by decide +kernel
  obtain ⟨item, member, inside⟩ := kept
  exact absurd (serializable.fits item member _ inside).secret (by decide)

end IMeDesktop.Mtproto.DcOptions
