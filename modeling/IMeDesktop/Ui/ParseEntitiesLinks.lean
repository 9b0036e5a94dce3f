import IMeDesktop.Ui.ParseEntities

/-! # The links that are detected, and what becomes of them

Every step of the loop moves the match offset forward, so the loop ends, and the links it detects come one
behind another. They are put behind all the entities that were there, and are forgotten when one of those
was passed: a link is kept only where there were no entities, or out of order.
-/

namespace IMeDesktop.Ui.TextUtilities

theorem RegExp.find_of_asked {r : RegExp} {flags flag : UInt32} {text : QString} {offset : Nat} {m : Match}
    (found : r.asked flags flag text offset = some m) : r.find text offset = some m := by
  unfold asked at found
  split at found
  · exact found
  · cases found

namespace Expressions

variable {e : Expressions} {text : QString} {flags : UInt32} {offset matchOffset mentionSkip : Nat}

/-! ## One step -/

/-- A range of the text, not before a position. -/
structure Inside (text : QString) (position : Nat) (range : Nat × Nat) : Prop where
  after : position ≤ range.1
  filled : range.1 < range.2
  before : range.2 ≤ text.length

theorem inside_trimmed {last : Nat} (r : BorderedRegExp last) {m : Match} {position : Nat}
    (found : r.find text position = some m) : Inside text position (trimmed last m) := by
  obtain ⟨after, -, before⟩ := r.bounds found
  have body := r.body found
  exact ⟨by simp only [trimmed]; omega, body, by simp only [trimmed]; omega⟩

theorem le_mentionSkipFrom (text : QString) (mentionEnd : Nat) : mentionEnd ≤ mentionSkipFrom text mentionEnd := by
  unfold mentionSkipFrom
  split
  · exact Nat.le_succ _
  · exact le_rfl

/-- A mention that is found, good or not, is behind the match offset. -/
theorem nextMention_spec {steps : Nat} {m : Match} {skip : Nat}
    (found : e.mention.find text (max skip matchOffset) = some m) (enough : text.length < steps + m.capturedStart) :
    ∃ mention range, e.nextMention text matchOffset steps m skip = some mention ∧ mention.range = some range ∧
      Inside text matchOffset range := by
  induction steps generalizing m skip with
  | zero =>
      have bounds := e.mention.bounds found
      omega
  | succ steps ih =>
      obtain ⟨after, filled, before⟩ := inside_trimmed e.mention found
      have here : Inside text matchOffset (trimmed 2 m) := ⟨by omega, filled, before⟩
      have start : m.capturedStart ≤ (trimmed 2 m).1 := Nat.le_add_right _ _
      rw [nextMention]
      dsimp only
      split
      · have later := le_mentionSkipFrom text (trimmed 2 m).2
        split
        · exact ⟨_, _, rfl, rfl, here⟩
        · rename_i m' again
          have bounds := e.mention.bounds again
          exact ih again (by omega)
      · exact ⟨_, _, rfl, rfl, here⟩

theorem skipAlmostLinkEnd_le {position : Nat} (inside : position ≤ text.length) :
    position ≤ skipAlmostLinkEnd text position ∧ skipAlmostLinkEnd text position ≤ text.length := by
  have short := (List.takeWhile_sublist IsAlmostLinkEnd (l := text.drop position)).length_le
  rw [List.length_drop] at short
  unfold skipAlmostLinkEnd
  omega

/-- A link does not end before its domain does. -/
theorem linkEnd_spec {first : Nat} (steps : Nat) {p : Nat} {parenth : List Nat} (after : first ≤ p)
    (inside : p ≤ text.length) (brackets : ∀ q ∈ parenth, first ≤ q ∧ q ≤ text.length) :
    first ≤ e.linkEnd text steps p parenth ∧ e.linkEnd text steps p parenth ≤ text.length := by
  induction steps generalizing p parenth with
  | zero => exact ⟨after, inside⟩
  | succ steps ih =>
      rw [linkEnd]
      dsimp only
      split
      · exact ⟨after, inside⟩
      · split
        · exact ⟨after, inside⟩
        · have almost := @skipAlmostLinkEnd_le text (p + 1) (by omega)
          generalize tested : (if IsAlmostLinkEnd (charAt text p) then skipAlmostLinkEnd text (p + 1) else p) = endTest
          have later : p ≤ endTest := by
            rw [← tested]
            split
            · omega
            · exact le_rfl
          split
          · exact ⟨after, inside⟩
          · rename_i goesOn
            have before : endTest < text.length := by grind
            split
            · exact ih (by omega) (by omega) (List.forall_mem_cons.mpr ⟨by omega, brackets⟩)
            · split
              · exact ih (by omega) (by omega) brackets
              · split
                · exact ⟨by omega, by omega⟩
                · obtain ⟨top, below⟩ := List.forall_mem_cons.mp brackets
                  split
                  · exact top
                  · exact ih (by omega) (by omega) below

/-! ## What is nearest -/

/-- The offsets move forward, and a link is not empty and not before the offset. -/
def Detected.Good (text : QString) (offset matchOffset : Nat) : Detected → Prop
  | .nothing => True
  | .ignored offset' matchOffset' =>
      offset ≤ offset' ∧ offset' ≤ matchOffset' ∧ matchOffset < matchOffset' ∧ matchOffset' ≤ text.length
  | .link _ start length =>
      offset ≤ start ∧ 0 < length ∧ matchOffset < start + length ∧ start + length ≤ text.length

theorem detected_good (ordered : offset ≤ matchOffset) (type : EntityType) (ignore : Bool) {range : Option (Nat × Nat)}
    (inside : ∀ r, range = some r → Inside text matchOffset r) :
    (detected type ignore range).Good text offset matchOffset := by
  cases range with
  | none => trivial
  | some range =>
      obtain ⟨after, filled, before⟩ := inside range rfl
      cases ignore with
      | true => exact ⟨by omega, le_rfl, by omega, before⟩
      | false => exact ⟨by omega, by omega, by omega, by omega⟩

theorem detectDomain_good (ordered : offset ≤ matchOffset) {m : Match}
    (inside : Inside text matchOffset (range m)) :
    (e.detectDomain text offset m).Good text offset matchOffset := by
  obtain ⟨after, filled, before⟩ := inside
  unfold detectDomain
  simp only [range] at after filled before ⊢
  split
  · rename_i mail found
    split at found
    · have bounds := e.mailNameAtEnd.bounds found
      have short : (mid text offset (m.capturedStart - offset - 1)).length ≤ m.capturedStart - offset - 1 :=
        List.length_take_le _ _
      exact ⟨by omega, by omega, by omega, by omega⟩
    · cases found
  · have p := @linkEnd_spec e text m.capturedEnd (text.length - m.capturedEnd) m.capturedEnd [] le_rfl before nofun
    split
    · exact ⟨le_rfl, by omega, by omega, before⟩
    · split
      · exact ⟨le_rfl, by omega, by omega, before⟩
      · exact ⟨by omega, by omega, by omega, by omega⟩

theorem firstMention_spec (e : Expressions) (flags : UInt32) (matchOffset mentionSkip : Nat) :
    ∃ mention, e.firstMention text flags matchOffset mentionSkip = some mention ∧
      ∀ r, mention.range = some r → Inside text matchOffset r := by
  unfold firstMention
  split
  · exact ⟨_, rfl, nofun⟩
  · rename_i m found
    obtain ⟨mention, r, known, eq, inside⟩ := @nextMention_spec e text matchOffset (text.length + 1) m mentionSkip
      (RegExp.find_of_asked found) (by omega)
    refine ⟨mention, known, fun r' same => ?_⟩
    rw [eq] at same
    cases same
    exact inside

theorem inside_range (r : RegExp) {m : Match} {position : Nat} (found : r.find text position = some m) :
    Inside text position (range m) := by
  obtain ⟨after, filled, before⟩ := r.bounds found
  exact ⟨after, filled, before⟩

theorem inside_asked {last : Nat} (r : BorderedRegExp last) (flag : UInt32) (found : Nat × Nat)
    (known : (r.asked flags flag text matchOffset).map (trimmed last) = some found) : Inside text matchOffset found := by
  obtain ⟨m, matched, rfl⟩ := Option.map_eq_some_iff.mp known
  exact inside_trimmed r (RegExp.find_of_asked matched)

theorem nearest_good (ordered : offset ≤ matchOffset) {mention : Mention} {hashtag botCommand : Option (Nat × Nat)}
    {mDomain : Option Match} (inMention : ∀ r, mention.range = some r → Inside text matchOffset r)
    (inHashtag : ∀ r, hashtag = some r → Inside text matchOffset r)
    (inBotCommand : ∀ r, botCommand = some r → Inside text matchOffset r)
    (inDomain : ∀ m, mDomain = some m → Inside text matchOffset (range m)) :
    (e.nearest text offset mention hashtag botCommand mDomain).Good text offset matchOffset := by
  unfold nearest
  dsimp only
  split
  · exact detected_good ordered _ _ inMention
  · split
    · exact detected_good ordered _ _ inHashtag
    · split
      · exact detected_good ordered _ _ inBotCommand
      · split
        · trivial
        · exact detectDomain_good ordered (inDomain _ rfl)

theorem detect_good (e : Expressions) (flags : UInt32) (mentionSkip : Nat) (ordered : offset ≤ matchOffset) :
    ∃ found skip, e.detect text flags offset matchOffset mentionSkip = some (found, skip) ∧
      found.Good text offset matchOffset := by
  obtain ⟨mention, known, inMention⟩ := @firstMention_spec text e flags matchOffset mentionSkip
  rw [detect, known]
  simp only [Option.bind_eq_bind, Option.bind_some]
  split
  · exact ⟨_, _, rfl, trivial⟩
  · refine ⟨_, _, rfl, nearest_good ordered inMention (inside_asked e.hashtag _) (inside_asked e.botCommand _) ?_⟩
    intro m taken
    split at taken
    · exact inside_range _ taken
    · exact inside_range _ taken

/-- The steps that are left of a text are enough for the end of a link. -/
theorem linkEnd_steps {steps more p : Nat} {parenth : List Nat} (enough : text.length - p ≤ steps)
    (enough' : text.length - p ≤ more) : e.linkEnd text steps p parenth = e.linkEnd text more p parenth := by
  induction steps generalizing more p parenth with
  | zero =>
      cases more with
      | zero => rfl
      | succ more =>
          rw [linkEnd, linkEnd, if_pos (by omega)]
  | succ steps ih =>
      cases more with
      | zero => rw [linkEnd, linkEnd, if_pos (by omega)]
      | succ more =>
          have later : p ≤ if IsAlmostLinkEnd (charAt text p) then skipAlmostLinkEnd text (p + 1) else p := by
            split
            · exact Nat.le_trans (Nat.le_succ p) (Nat.le_add_right _ _)
            · exact le_rfl
          rw [linkEnd, linkEnd]
          dsimp only
          generalize (if IsAlmostLinkEnd (charAt text p) then skipAlmostLinkEnd text (p + 1) else p) = endTest at later ⊢
          have same (parenth : List Nat) :
              e.linkEnd text steps (endTest + 1) parenth = e.linkEnd text more (endTest + 1) parenth :=
            ih (by omega) (by omega)
          simp only [same]

/-! ## All links -/

/-- The links that the loop detects, whatever entities there are. -/
def linksFrom (e : Expressions) (text : QString) (flags : UInt32) :
    Nat → Nat → Nat → Nat → Option (List EntityInText)
  | 0, _, _, _ => none
  | steps + 1, offset, matchOffset, mentionSkip =>
      if text.length ≤ offset then some []
      else do
        let (found, mentionSkip) ← e.detect text flags offset matchOffset mentionSkip
        match found with
        | .nothing => some []
        | .ignored offset matchOffset => e.linksFrom text flags steps offset matchOffset mentionSkip
        | .link type start length =>
            let links ← e.linksFrom text flags steps (start + length) (start + length) mentionSkip
            some (⟨type, start, length, []⟩ :: links)

def links (e : Expressions) (text : QString) (flags : UInt32) : Option (List EntityInText) :=
  e.linksFrom text flags (text.length + 1) 0 0 0

/-- Links that come one behind another, from a position on. -/
def Follow : Int → List EntityInText → Prop
  | _, [] => True
  | position, link :: rest => position ≤ link.offset ∧ 0 < link.length ∧ Follow (link.offset + link.length) rest

theorem Follow.mono {first second : Int} {links : List EntityInText} (earlier : first ≤ second)
    (follow : Follow second links) : Follow first links := by
  cases links with
  | nil => trivial
  | cons link rest => exact ⟨earlier.trans follow.1, follow.2⟩

theorem Follow.all {position : Int} {links : List EntityInText} (follow : Follow position links) :
    ∀ link ∈ links, position ≤ link.offset ∧ 0 < link.length := by
  induction links generalizing position with
  | nil => exact nofun
  | cons link rest ih =>
      obtain ⟨after, filled, later⟩ := follow
      refine List.forall_mem_cons.mpr ⟨⟨after, filled⟩, fun l member => ?_⟩
      obtain ⟨after', filled'⟩ := ih later l member
      exact ⟨by omega, filled'⟩

theorem Follow.sorted {position : Int} {links : List EntityInText} (follow : Follow position links) :
    links.Pairwise fun a b => a.offset ≤ b.offset := by
  induction links generalizing position with
  | nil => exact .nil
  | cons link rest ih =>
      obtain ⟨after, filled, later⟩ := follow
      refine List.pairwise_cons.mpr ⟨fun l member => ?_, ih later⟩
      have behind := (later.all l member).1
      omega

theorem linksFrom_follow (e : Expressions) (flags : UInt32) {steps : Nat} (mentionSkip : Nat) (ordered : offset ≤ matchOffset)
    (inside : matchOffset ≤ text.length) (enough : text.length < steps + matchOffset) :
    ∃ links, e.linksFrom text flags steps offset matchOffset mentionSkip = some links ∧ Follow offset links := by
  induction steps generalizing offset matchOffset mentionSkip with
  | zero => omega
  | succ steps ih =>
      rw [linksFrom]
      split
      · exact ⟨[], rfl, trivial⟩
      · obtain ⟨found, skip, eq, good⟩ := @detect_good text offset matchOffset e flags mentionSkip ordered
        rw [eq]
        simp only [Option.bind_eq_bind, Option.bind_some]
        cases found with
        | nothing => exact ⟨[], rfl, trivial⟩
        | ignored offset' matchOffset' =>
            obtain ⟨after, ordered', forward, inside'⟩ := good
            obtain ⟨links, eq, follow⟩ := ih skip ordered' inside' (by omega)
            exact ⟨links, eq, follow.mono (Int.ofNat_le.mpr after)⟩
        | link type start length =>
            obtain ⟨after, filled, forward, inside'⟩ := good
            obtain ⟨links, eq, follow⟩ := ih skip le_rfl inside' (by omega)
            refine ⟨⟨type, start, length, []⟩ :: links, ?_, ?_, ?_, ?_⟩
            · dsimp only
              rw [eq]
              rfl
            · exact Int.ofNat_le.mpr after
            · exact Int.natCast_pos.mpr filled
            · exact_mod_cast follow

/-- The loop detects the links, and adds each of them in turn. -/
theorem parseFrom_eq (e : Expressions) (text : QString) (flags : UInt32) (count steps offset matchOffset mentionSkip : Nat)
    (merging : Merging) :
    e.parseFrom text flags count steps offset matchOffset mentionSkip merging =
      (e.linksFrom text flags steps offset matchOffset mentionSkip).map
        fun links => links.foldl (Merging.addLink count) merging := by
  induction steps generalizing offset matchOffset mentionSkip merging with
  | zero => rfl
  | succ steps ih =>
      rw [parseFrom, linksFrom]
      split
      · rfl
      · cases e.detect text flags offset matchOffset mentionSkip with
        | none => rfl
        | some found =>
            obtain ⟨found, skip⟩ := found
            simp only [Option.bind_eq_bind, Option.bind_some]
            cases found with
            | nothing => rfl
            | ignored offset' matchOffset' => exact ih offset' matchOffset' skip merging
            | link type start length =>
                dsimp only
                rw [ih]
                cases e.linksFrom text flags steps (start + length) (start + length) skip with
                | none => rfl
                | some links => rfl

/-! ## Merging -/

section Merging

variable {existing links : List EntityInText} {m : Merging}

/-- The entities that were passed are the first of those that were there. While there are none, every link is kept. -/
structure Merged (existing added : List EntityInText) (m : Merging) : Prop where
  inside : m.existingEntityIndex ≤ existing.length
  passed : m.newEntities = existing.take m.existingEntityIndex
  kept : ∃ kept, m.entities = existing ++ kept ∧
    (m.existingEntityIndex = 0 → m.existingEntityEnd = 0 ∧ kept = added)

/-- Whether an entity that was there starts before the link does, or with it. -/
def passes (existing : List EntityInText) (link : EntityInText) : Bool :=
  existing.head?.any fun first => first.offset ≤ link.offset

theorem Merged.addLink {added : List EntityInText} (merged : Merged existing added m) {link : EntityInText}
    (after : 0 ≤ link.offset) :
    Merged existing (added ++ [link]) (m.addLink existing.length link) ∧
      ((m.addLink existing.length link).existingEntityIndex = 0 ↔
        m.existingEntityIndex = 0 ∧ passes existing link = false) := by
  obtain ⟨inside, passed, kept, entities, early⟩ := merged
  have rest : (m.entities.take existing.length).drop m.existingEntityIndex = existing.drop m.existingEntityIndex := by
    rw [entities, List.take_left]
  unfold Merging.addLink
  dsimp only
  rw [rest]
  -- what is passed now is a prefix of what was not passed before
  obtain ⟨left, whole⟩ : ∃ left, existing.drop m.existingEntityIndex =
      (existing.drop m.existingEntityIndex).takeWhile (fun entity => decide (entity.offset ≤ link.offset)) ++ left :=
    ⟨_, (List.takeWhile_append_dropWhile ..).symm⟩
  have none : m.existingEntityIndex = 0 →
      ((existing.drop m.existingEntityIndex).takeWhile (fun entity => decide (entity.offset ≤ link.offset)) = [] ↔
        passes existing link = false) := by
    intro first
    rw [first, List.drop_zero]
    cases existing with
    | nil => simp [passes]
    | cons head rest => simp [passes, List.takeWhile_cons]
  generalize (existing.drop m.existingEntityIndex).takeWhile (fun entity => decide (entity.offset ≤ link.offset)) = now at whole none ⊢
  have size := congrArg List.length whole
  rw [List.length_drop, List.length_append] at size
  refine ⟨⟨by dsimp only; omega, ?_, ?_⟩, ?_⟩
  · dsimp only
    rw [passed, List.take_add, whole, List.take_left]
  · have untouched : m.existingEntityIndex + now.length = 0 →
        now.foldl (fun last entity => max last (entity.offset + entity.length)) m.existingEntityEnd = 0 ∧
          kept = added := by
      intro first
      obtain ⟨first, empty⟩ := Nat.add_eq_zero_iff.mp first
      rw [List.length_eq_zero_iff.mp empty]
      exact early first
    dsimp only
    split
    · exact ⟨kept ++ [link], by rw [entities, List.append_assoc], fun first => ⟨(untouched first).1,
        by rw [(untouched first).2]⟩⟩
    · rename_i reached
      refine ⟨kept, entities, fun first => absurd after ?_⟩
      rwa [(untouched first).1] at reached
  · rw [Nat.add_eq_zero_iff, List.length_eq_zero_iff]
    exact and_congr_right none

theorem Merged.addLinks {added : List EntityInText} (merged : Merged existing added m)
    (after : ∀ link ∈ links, 0 ≤ link.offset) :
    Merged existing (added ++ links) (links.foldl (Merging.addLink existing.length) m) ∧
      ((links.foldl (Merging.addLink existing.length) m).existingEntityIndex = 0 ↔
        m.existingEntityIndex = 0 ∧ links.any (passes existing) = false) := by
  induction links generalizing m added with
  | nil => exact ⟨(List.append_nil added).symm ▸ merged, (and_iff_left rfl).symm⟩
  | cons link rest ih =>
      obtain ⟨here, later⟩ := List.forall_mem_cons.mp after
      obtain ⟨merged', first⟩ := merged.addLink here
      obtain ⟨merged'', all⟩ := ih merged' later
      rw [List.append_assoc] at merged''
      refine ⟨merged'', all.trans ?_⟩
      rw [first, List.any_cons, Bool.or_eq_false_iff, and_assoc]

/-- The entities are those that were there, if one of them starts before a link; else all links are behind them. -/
theorem ParseEntities_eq (e : Expressions) (text : QString) (existing : List EntityInText) (flags : UInt32) :
    ∃ links, e.links text flags = some links ∧ Follow 0 links ∧
      e.ParseEntities ⟨text, existing⟩ flags =
        some ⟨text, if links.any (passes existing) then existing else existing ++ links⟩ := by
  obtain ⟨links, found, follow⟩ := @linksFrom_follow text 0 0 e flags (text.length + 1) 0 le_rfl (Nat.zero_le _) (by omega)
  refine ⟨links, found, follow, ?_⟩
  have start : Merged existing [] { entities := existing } :=
    ⟨Nat.zero_le _, rfl, [], (List.append_nil _).symm, fun _ => ⟨rfl, rfl⟩⟩
  obtain ⟨⟨inside, passed, kept, entities, early⟩, first⟩ := start.addLinks fun link member => (follow.all link member).1
  rw [ParseEntities, parseFrom_eq]
  dsimp only
  rw [found]
  simp only [Option.map_some, Option.bind_eq_bind, Option.bind_some]
  generalize links.foldl (Merging.addLink existing.length) { entities := existing } = m at inside passed entities early first ⊢
  rw [passed, entities, List.take_left]
  cases reached : links.any (passes existing) with
  | true =>
      have some : m.existingEntityIndex ≠ 0 := fun zero => by
        rw [reached] at first
        exact Bool.true_eq_false.mp (first.mp zero).2
      have filled : existing.take m.existingEntityIndex ≠ [] := by
        intro empty
        have length := congrArg List.length empty
        rw [List.length_take, List.length_nil] at length
        omega
      rw [if_neg filled, List.take_append_drop]
      rfl
  | false =>
      have none := first.mpr ⟨rfl, reached⟩
      rw [none, List.take_zero, if_pos rfl, (early none).2]
      rfl

/-! ## What is added -/

def Overlaps (a b : EntityInText) : Prop := max a.offset b.offset < min (a.offset + a.length) (b.offset + b.length)

instance (a b : EntityInText) : Decidable (Overlaps a b) :=
  inferInstanceAs (Decidable (max a.offset b.offset < min (a.offset + a.length) (b.offset + b.length)))

/-- The links that overlap no entity that was there. -/
def apart (existing links : List EntityInText) : List EntityInText :=
  links.filter fun link => ∀ entity ∈ existing, ¬Overlaps link entity

/-- Nothing is lost, the links that are apart are added and no others, and all are in order. -/
structure OnlyAdds (existing links result : List EntityInText) : Prop where
  adds : result.Perm (existing ++ apart existing links)
  sorted : result.Pairwise fun a b => a.offset ≤ b.offset

/-- There were no entities, or no links, or no link was to be added and the entities before the links were passed. -/
def Harmless (existing links : List EntityInText) : Prop :=
  existing = [] ∨ links = [] ∨
    (∃ link ∈ links, ∃ entity ∈ existing, entity.offset ≤ link.offset) ∧
      ∀ link ∈ links, ∃ entity ∈ existing, Overlaps link entity

theorem apart_eq_nil_iff : apart existing links = [] ↔ ∀ link ∈ links, ∃ entity ∈ existing, Overlaps link entity := by
  rw [apart, List.filter_eq_nil_iff]
  refine forall₂_congr fun link _ => ?_
  simp

theorem passes_cons {head : EntityInText} {rest : List EntityInText} {link : EntityInText} :
    passes (head :: rest) link = true ↔ head.offset ≤ link.offset := decide_eq_true_iff

theorem onlyAdds_iff (sorted : existing.Pairwise fun a b => a.offset ≤ b.offset) (follow : Follow 0 links) :
    OnlyAdds existing links (if links.any (passes existing) then existing else existing ++ links) ↔
      Harmless existing links := by
  cases existing with
  | nil =>
      have none : links.any (passes []) = false := List.any_eq_false.mpr fun _ _ => Bool.false_ne_true
      have all : apart [] links = links := List.filter_eq_self.mpr fun link _ => decide_eq_true nofun
      rw [none]
      exact iff_of_true ⟨by rw [all]; exact .refl _, follow.sorted⟩ (.inl rfl)
  | cons head rest =>
      have least : ∀ entity ∈ head :: rest, head.offset ≤ entity.offset :=
        List.forall_mem_cons.mpr ⟨le_rfl, (List.pairwise_cons.mp sorted).1⟩
      cases passed : links.any (passes (head :: rest)) with
      | true =>
          obtain ⟨link, member, before⟩ := List.any_eq_true.mp passed
          have before := passes_cons.mp before
          constructor
          · rintro ⟨adds, -⟩
            have length := adds.length_eq
            rw [if_pos rfl, List.length_append] at length
            have none : apart (head :: rest) links = [] := List.length_eq_zero_iff.mp (by omega)
            exact .inr (.inr ⟨⟨link, member, head, List.mem_cons_self, before⟩, apart_eq_nil_iff.mp none⟩)
          · rintro (empty | rfl | ⟨-, overlapping⟩)
            · cases empty
            · cases member
            · refine ⟨?_, sorted⟩
              rw [apart_eq_nil_iff.mpr overlapping, List.append_nil]
              exact .refl _
      | false =>
          have later : ∀ link ∈ links, ¬head.offset ≤ link.offset := fun link member before =>
            List.any_eq_false.mp passed link member (passes_cons.mpr before)
          constructor
          · rintro ⟨-, ordered⟩
            refine .inr (.inl (List.eq_nil_iff_forall_not_mem.mpr fun link member => later link member ?_))
            exact (List.pairwise_append.mp ordered).2.2 head List.mem_cons_self link member
          · rintro (empty | rfl | ⟨⟨link, member, entity, known, before⟩, -⟩)
            · cases empty
            · exact ⟨.refl _, by simpa using sorted⟩
            · exact absurd ((least entity known).trans before) (later link member)

/-- A text in which a hashtag is found at a position, and nothing else. -/
def hashtagAt (position : Nat) : Expressions where
  domain := ⟨fun _ _ => none, not_found⟩
  domainExplicit := ⟨fun _ _ => none, not_found⟩
  hashtag :=
    { find := fun text offset =>
        if offset ≤ position ∧ position + 3 ≤ text.length then some ⟨position, position + 3, fun _ => []⟩ else none
      bounds := by
        intro text offset m found
        split at found
        · rename_i inside
          cases found
          exact ⟨inside.1, by dsimp only; omega, inside.2⟩
        · cases found
      body := by
        intro text offset m found
        split at found
        · cases found
          simp [border]
        · cases found }
  mention := .never 2
  botCommand := .never 3
  mailNameAtEnd := ⟨fun _ _ => none, not_found⟩
  hashtagExclude _ := false
  IsValidProtocol _ := false
  IsValidTopDomain _ := false
  toLower := id
  isLetter _ := true
  isLetterOrNumber _ := true
  isSpace _ := false
  isMac := false

theorem links_hashtagAt (position : Nat) (text : QString) (length : text.length = position + 3) :
    (hashtagAt position).links text TextParseHashtags = some [⟨.hashtag, position, 3, []⟩] := by
  have asked : TextParseHashtags ≠ 0 := by decide
  have first : (hashtagAt position).detect text TextParseHashtags 0 0 0 = some (.link .hashtag position 3, 0) := by
    simp [detect, hashtagAt, BorderedRegExp.never, RegExp.asked, firstMention, nearest, startsBefore, detected,
      trimmed, border, length, asked]
  have second : (hashtagAt position).linksFrom text TextParseHashtags text.length (position + 3) (position + 3) 0 =
      some [] := by
    rw [length, linksFrom, if_pos length.le]
  rw [links, linksFrom, if_neg (by omega), first]
  simp only [Option.bind_eq_bind, Option.bind_some]
  rw [second]
  rfl

/-- A position behind all entities. -/
theorem exists_behind (existing : List EntityInText) :
    ∃ position : Nat, ∀ entity ∈ existing, entity.offset ≤ position ∧ entity.offset + entity.length ≤ position := by
  induction existing with
  | nil => exact ⟨0, nofun⟩
  | cons entity rest ih =>
      obtain ⟨position, behind⟩ := ih
      refine ⟨max position (max entity.offset.toNat (entity.offset + entity.length).toNat),
        List.forall_mem_cons.mpr ⟨by omega, fun other member => ?_⟩⟩
      have := behind other member
      omega

end Merging

end Expressions

end IMeDesktop.Ui.TextUtilities
