import Mathlib.Data.List.Infix
import Mathlib.Data.List.Pairwise
import Mathlib.Order.Lattice

/-!
# Feeds

A producer makes items in increasing order and forgets the oldest ones at any time; what it still
has can be delivered to a consumer. `Next` says which item may be delivered, such that the consumer
gets the items in order and misses only what was forgotten: `Sound`, which making, forgetting and
delivering items keep. A consumer that works from an old listing of the producer finds out with
`Listed.pending` what it may deliver, and `Pending` stays true while the producer goes on.
-/

/-- What a producer has made, what it still has, and what has been delivered, oldest first. -/
structure Feed (α : Type) where
  created : List α
  kept : List α
  delivered : List α

namespace Feed

variable {α : Type}

/-- The producer makes an item. -/
def create (item : α) (feed : Feed α) : Feed α :=
  { feed with created := feed.created ++ [item], kept := feed.kept ++ [item] }

/-- The producer forgets its oldest item. -/
def forget (feed : Feed α) : Feed α :=
  { feed with kept := feed.kept.tail }

/-- An item is delivered. -/
def deliver (item : α) (feed : Feed α) : Feed α :=
  { feed with delivered := feed.delivered ++ [item] }

/-- What the producer does while nothing is delivered. -/
structure Later (feed feed' : Feed α) : Prop where
  created_prefix : feed.created <+: feed'.created
  forgotten : ∀ item ∈ feed.created, item ∉ feed.kept → item ∉ feed'.kept
  delivered_eq : feed'.delivered = feed.delivered

/-- The producer can be idle. -/
theorem Later.refl (feed : Feed α) : feed.Later feed where
  created_prefix := List.prefix_rfl
  forgotten := fun _ _ hgone => hgone
  delivered_eq := rfl

/-- What is forgotten stays forgotten. -/
theorem Later.forget (feed : Feed α) : feed.Later feed.forget where
  created_prefix := List.prefix_rfl
  forgotten := fun _ _ hgone hkept => hgone (List.mem_of_mem_tail hkept)
  delivered_eq := rfl

section Order

variable [LinearOrder α] {feed feed' : Feed α} {item : α} {items listing : List α}

/-- The item can be delivered: it is newer than what was delivered before, and no older item that
the producer still has is left out. -/
structure Next (feed : Feed α) (item : α) : Prop where
  kept : item ∈ feed.kept
  newer : ∀ other ∈ feed.delivered, other < item
  noGap : ∀ other ∈ feed.created, other < item → other ∈ feed.delivered ∨ other ∉ feed.kept

/-- Everything is in order: the producer forgets the oldest items first, nothing is delivered twice
or out of order, and what is left out has been forgotten. -/
structure Sound (feed : Feed α) : Prop where
  created_sorted : feed.created.Pairwise (· < ·)
  kept_suffix : feed.kept <:+ feed.created
  delivered_sorted : feed.delivered.Pairwise (· < ·)
  delivered_created : ∀ item ∈ feed.delivered, item ∈ feed.created
  noGap : ∀ newest ∈ feed.delivered, ∀ other ∈ feed.created, other < newest →
    other ∈ feed.delivered ∨ other ∉ feed.kept

/-- These are the items left to deliver up to the last of them. -/
structure Pending (feed : Feed α) (items : List α) : Prop where
  sorted : items.Pairwise (· < ·)
  created : ∀ item ∈ items, item ∈ feed.created
  newer : ∀ item ∈ items, ∀ other ∈ feed.delivered, other < item
  noGap : ∀ item ∈ items, ∀ other ∈ feed.created, other < item →
    other ∈ items ∨ other ∈ feed.delivered ∨ other ∉ feed.kept

/-- The listing shows, if anything, what the producer had at some time after the last delivery. -/
structure Listed (feed : Feed α) (listing : List α) : Prop where
  sublist : listing.Sublist feed.created
  later : ∀ item ∈ feed.created, item ∉ listing → item ∈ feed.kept →
    ∀ other ∈ listing, other < item ∧ item ∉ feed.delivered

namespace Sound

/-- What is newer than something that is kept is kept too. -/
theorem kept_of_lt (h : feed.Sound) {older newer : α} (holder : older ∈ feed.kept)
    (hnewer : newer ∈ feed.created) (hlt : older < newer) : newer ∈ feed.kept := by
  obtain ⟨dropped, hdropped⟩ := h.kept_suffix
  have hsorted := h.created_sorted
  rw [← hdropped] at hsorted hnewer
  rcases List.mem_append.1 hnewer with hgone | hkept
  · -- The dropped items are older than the kept ones.
    have hgt := (List.pairwise_append.1 hsorted).2.2 newer hgone older holder
    exact absurd hlt (lt_asymm hgt)
  · exact hkept

/-- What a prefix of the created items leaves out is newer. -/
theorem lt_of_notMem_prefix (h : feed.Sound) {before : List α} (hbefore : before <+: feed.created)
    {older newer : α} (holder : older ∈ before) (hnewer : newer ∈ feed.created)
    (hnot : newer ∉ before) : older < newer := by
  obtain ⟨after, hafter⟩ := hbefore
  have hsorted := h.created_sorted
  rw [← hafter] at hsorted hnewer
  have hmem := (List.mem_append.1 hnewer).resolve_left hnot
  exact (List.pairwise_append.1 hsorted).2.2 older holder newer hmem

/-- A new item leaves no gap, being the newest. -/
theorem create (h : feed.Sound) (hnew : ∀ other ∈ feed.created, other < item) :
    (feed.create item).Sound where
  created_sorted := by
    rw [Feed.create, List.pairwise_append]
    refine ⟨h.created_sorted, List.pairwise_singleton _ _, ?_⟩
    simpa using hnew
  kept_suffix := by
    obtain ⟨dropped, hdropped⟩ := h.kept_suffix
    refine ⟨dropped, ?_⟩
    rw [Feed.create, ← List.append_assoc, hdropped]
  delivered_sorted := h.delivered_sorted
  delivered_created := fun other hother => List.mem_append_left _ (h.delivered_created other hother)
  noGap := by
    intro newest hnewest other hother hlt
    rcases List.mem_append.1 hother with hold | hsame
    · refine (h.noGap newest hnewest other hold hlt).imp_right fun hgone hkept => ?_
      rcases List.mem_append.1 hkept with hkept | hitem
      · exact hgone hkept
      · exact absurd (hnew other hold) (by simp [List.mem_singleton.1 hitem])
    · have hgt := hnew newest (h.delivered_created newest hnewest)
      rw [List.mem_singleton.1 hsame] at hlt
      exact absurd hlt (lt_asymm hgt)

/-- Forgetting the oldest item leaves no gap. -/
theorem forget (h : feed.Sound) : feed.forget.Sound where
  created_sorted := h.created_sorted
  kept_suffix := (List.tail_suffix _).trans h.kept_suffix
  delivered_sorted := h.delivered_sorted
  delivered_created := h.delivered_created
  noGap := fun newest hnewest other hother hlt =>
    (h.noGap newest hnewest other hother hlt).imp_right fun hgone hkept =>
      hgone (List.mem_of_mem_tail hkept)

/-- So does the delivery of the item that is next. -/
theorem deliver (h : feed.Sound) (hnext : feed.Next item) : (feed.deliver item).Sound where
  created_sorted := h.created_sorted
  kept_suffix := h.kept_suffix
  delivered_sorted := by
    rw [Feed.deliver, List.pairwise_append]
    refine ⟨h.delivered_sorted, List.pairwise_singleton _ _, ?_⟩
    simpa using hnext.newer
  delivered_created := by
    intro other hother
    rcases List.mem_append.1 hother with hold | hsame
    · exact h.delivered_created other hold
    · rw [List.mem_singleton.1 hsame]
      exact h.kept_suffix.subset hnext.kept
  noGap := by
    intro newest hnewest other hother hlt
    have hold : other ∈ feed.delivered ∨ other ∉ feed.kept := by
      rcases List.mem_append.1 hnewest with hearlier | hsame
      · exact h.noGap newest hearlier other hother hlt
      · rw [List.mem_singleton.1 hsame] at hlt
        exact hnext.noGap other hother hlt
    exact hold.imp_left (List.mem_append_left _)

end Sound

/-- A new item only adds to what there is. -/
theorem Later.create (hnew : ∀ other ∈ feed.created, other < item) :
    feed.Later (feed.create item) where
  created_prefix := List.prefix_append _ _
  forgotten := by
    intro other hother hgone hkept
    rcases List.mem_append.1 hkept with hkept | hsame
    · exact hgone hkept
    · exact absurd (hnew other hother) (by simp [List.mem_singleton.1 hsame])
  delivered_eq := rfl

namespace Pending

/-- Nothing is always pending. -/
theorem nil : feed.Pending [] where
  sorted := .nil
  created := by simp
  newer := by simp
  noGap := by simp

/-- The producer cannot change what is pending. -/
theorem later (h : feed.Pending items) (hsound : feed'.Sound) (hlater : feed.Later feed') :
    feed'.Pending items where
  sorted := h.sorted
  created := fun item hitem => hlater.created_prefix.subset (h.created item hitem)
  newer := fun item hitem other hother => h.newer item hitem other (hlater.delivered_eq ▸ hother)
  noGap := by
    intro item hitem other hother hlt
    have hold : other ∈ feed.created := by
      by_contra hnot
      have hgt :=
        hsound.lt_of_notMem_prefix hlater.created_prefix (h.created item hitem) hother hnot
      exact lt_asymm hlt hgt
    rcases h.noGap item hitem other hold hlt with hmem | hdelivered | hgone
    · exact .inl hmem
    · exact .inr (.inl (hlater.delivered_eq ▸ hdelivered))
    · exact .inr (.inr (hlater.forgotten other hold hgone))

/-- The first pending item is next, if the producer still has it. -/
theorem next (h : feed.Pending (item :: items)) (hkept : item ∈ feed.kept) : feed.Next item where
  kept := hkept
  newer := h.newer item List.mem_cons_self
  noGap := by
    intro other hother hlt
    refine (h.noGap item List.mem_cons_self other hother hlt).resolve_left fun hmem => ?_
    rcases List.mem_cons.1 hmem with rfl | hrest
    · exact lt_irrefl _ hlt
    · exact lt_asymm hlt ((List.pairwise_cons.1 h.sorted).1 other hrest)

/-- What stays pending once the first item is out of the way. -/
theorem tail_of (h : feed.Pending (item :: items)) (hcreated : feed'.created = feed.created)
    (hkept : feed'.kept = feed.kept)
    (hnewer : ∀ other ∈ feed'.delivered, other ∈ feed.delivered ∨ other = item)
    (hdelivered : ∀ other ∈ feed.delivered, other ∈ feed'.delivered)
    (hdone : item ∈ feed'.delivered ∨ item ∉ feed'.kept) : feed'.Pending items where
  sorted := (List.pairwise_cons.1 h.sorted).2
  created := fun other hother => hcreated ▸ h.created other (.tail _ hother)
  newer := by
    intro other hother older holder
    rcases hnewer older holder with hold | rfl
    · exact h.newer other (.tail _ hother) older hold
    · exact (List.pairwise_cons.1 h.sorted).1 other hother
  noGap := by
    intro other hother older holder hlt
    rcases h.noGap other (.tail _ hother) older (hcreated ▸ holder) hlt with hmem | hold | hgone
    · rcases List.mem_cons.1 hmem with rfl | hrest
      · exact .inr hdone
      · exact .inl hrest
    · exact .inr (.inl (hdelivered older hold))
    · exact .inr (.inr (hkept ▸ hgone))

/-- The other items stay pending when the first one is delivered. -/
theorem delivered (h : feed.Pending (item :: items)) : (feed.deliver item).Pending items := by
  refine h.tail_of rfl rfl ?_ ?_ (.inl (List.mem_append_right _ List.mem_cons_self))
  · intro other hother
    simpa [deliver] using hother
  · intro other hother
    exact List.mem_append_left _ hother

/-- The other items stay pending when the first one is lost. -/
theorem lost (h : feed.Pending (item :: items)) (hgone : item ∉ feed.kept) : feed.Pending items :=
  h.tail_of rfl rfl (fun _ hother => .inl hother) (fun _ hother => hother) (.inr hgone)

end Pending

namespace Listed

/-- Nothing is always a listing. -/
theorem nil : feed.Listed [] where
  sublist := List.nil_sublist _
  later := by simp

/-- What the producer has now is a listing. -/
theorem kept (h : feed.Sound) : feed.Listed feed.kept where
  sublist := h.kept_suffix.sublist
  later := fun _ _ hnot hkept => absurd hkept hnot

/-- The producer cannot change what a listing says about the past. -/
theorem after (h : feed.Listed listing) (hsound : feed.Sound) (hsound' : feed'.Sound)
    (hlater : feed.Later feed') : feed'.Listed listing where
  sublist := h.sublist.trans hlater.created_prefix.sublist
  later := by
    intro item hitem hnot hkept other hother
    rw [hlater.delivered_eq]
    by_cases hold : item ∈ feed.created
    · refine h.later item hold hnot ?_ other hother
      by_contra hgone
      exact hlater.forgotten item hold hgone hkept
    · have hgt := hsound'.lt_of_notMem_prefix hlater.created_prefix (h.sublist.subset hother)
        hitem hold
      exact ⟨hgt, fun hdelivered => hold (hsound.delivered_created item hdelivered)⟩

/-- Of a listing, what is newer than everything that is not missing now can be delivered. Missing is
what the producer still has and the consumer does not hold. -/
theorem pending (h : feed.Listed listing) (hsound : feed.Sound) {held missing : List α}
    (hheld : ∀ item ∈ held, item ∈ feed.delivered)
    (hnewest : ∀ newest, feed.delivered.getLast? = some newest → newest ∈ held)
    (hmissing : ∀ item ∈ listing, item ∈ missing ↔ item ∈ feed.kept ∧ item ∉ held)
    (hsublist : items.Sublist listing)
    (hitems : ∀ item ∈ listing,
      item ∈ items ↔ ∀ placed ∈ listing, placed ∉ missing → placed < item) :
    feed.Pending items where
  sorted := hsound.created_sorted.sublist (hsublist.trans h.sublist)
  created := fun item hitem => h.sublist.subset (hsublist.subset hitem)
  newer := by
    intro item hitem other hother
    obtain ⟨init, newest, hdelivered⟩ := List.eq_nil_or_concat' feed.delivered |>.resolve_left
      (List.ne_nil_of_mem hother)
    have hlisted := hsublist.subset hitem
    have hlast : feed.delivered.getLast? = some newest := by rw [hdelivered, List.getLast?_concat]
    have hmem : newest ∈ feed.delivered := List.mem_of_getLast? hlast
    have hle : other ≤ newest := by
      have hsorted := hsound.delivered_sorted
      rw [hdelivered] at hsorted hother
      rcases List.mem_append.1 hother with hinit | hsame
      · exact ((List.pairwise_append.1 hsorted).2.2 other hinit newest List.mem_cons_self).le
      · exact (List.mem_singleton.1 hsame).le
    refine hle.trans_lt ?_
    by_contra hnot
    rw [not_lt] at hnot
    have hkept : item ∈ feed.kept := by
      by_contra hgone
      refine absurd ((hitems item hlisted).1 hitem item hlisted ?_) (lt_irrefl item)
      exact fun hitem => hgone ((hmissing item hlisted).1 hitem).1
    have hcreated := hsound.delivered_created newest hmem
    have hkept' : newest ∈ feed.kept := by
      rcases hnot.eq_or_lt with rfl | hlt
      · exact hkept
      · exact hsound.kept_of_lt hkept hcreated hlt
    -- The newest delivered item was listed, as it was there already, and is not missing.
    have hlisted' : newest ∈ listing := by
      by_contra hnew
      exact (h.later newest hcreated hnew hkept' item hlisted).2 hmem
    have hlt := (hitems item hlisted).1 hitem newest hlisted' fun hnewest' =>
      ((hmissing newest hlisted').1 hnewest').2 (hnewest newest hlast)
    exact absurd hlt (not_lt.2 hnot)
  noGap := by
    intro item hitem other hother hlt
    have hlisted := hsublist.subset hitem
    by_cases hother' : other ∈ listing
    · by_cases hmem : other ∈ items
      · exact .inl hmem
      · have hblocked := mt (hitems other hother').2 hmem
        push Not at hblocked
        obtain ⟨placed, hplaced, hpresent, hle⟩ := hblocked
        have hcreated := h.sublist.subset hplaced
        by_cases hkept : placed ∈ feed.kept
        · have hheld' : placed ∈ held := by
            by_contra hnot
            exact hpresent ((hmissing placed hplaced).2 ⟨hkept, hnot⟩)
          rcases hle.eq_or_lt with rfl | hless
          · exact .inr (.inl (hheld _ hheld'))
          · exact .inr (hsound.noGap placed (hheld placed hheld') other hother hless)
        · refine .inr (.inr fun hkept' => hkept ?_)
          rcases hle.eq_or_lt with rfl | hless
          · exact hkept'
          · exact hsound.kept_of_lt hkept' hcreated hless
    · refine .inr (.inr fun hkept => ?_)
      exact lt_asymm hlt (h.later other hother hother' hkept item hlisted).1

/-- What is listed and not to be delivered was delivered before or forgotten. -/
theorem settled (h : feed.Listed listing) (hsound : feed.Sound) {held missing : List α}
    (hheld : ∀ item ∈ held, item ∈ feed.delivered)
    (hmissing : ∀ item ∈ listing, item ∈ missing ↔ item ∈ feed.kept ∧ item ∉ held)
    (hitems : ∀ item ∈ listing,
      item ∈ items ↔ ∀ placed ∈ listing, placed ∉ missing → placed < item)
    (hlisted : item ∈ listing) (hnot : item ∉ items) :
    item ∈ feed.delivered ∨ item ∉ feed.kept := by
  have hblocked := mt (hitems item hlisted).2 hnot
  push Not at hblocked
  obtain ⟨placed, hplaced, hpresent, hle⟩ := hblocked
  have hcreated := h.sublist.subset hplaced
  by_cases hkept : placed ∈ feed.kept
  · have hheld' : placed ∈ held := by
      by_contra hnone
      exact hpresent ((hmissing placed hplaced).2 ⟨hkept, hnone⟩)
    rcases hle.eq_or_lt with rfl | hless
    · exact .inl (hheld _ hheld')
    · exact hsound.noGap placed (hheld placed hheld') item (h.sublist.subset hlisted) hless
  · refine .inr fun hkept' => hkept ?_
    rcases hle.eq_or_lt with rfl | hless
    · exact hkept'
    · exact hsound.kept_of_lt hkept' hcreated hless

end Listed

end Order

/-- Of a goal, these items are left to deliver: all others have been delivered or forgotten. -/
structure Covers (feed : Feed α) (goal items : List α) : Prop where
  created : ∀ item ∈ goal, item ∈ feed.created
  settled : ∀ item ∈ goal, item ∈ items ∨ item ∈ feed.delivered ∨ item ∉ feed.kept

namespace Covers

variable {feed feed' : Feed α} {goal items : List α} {item : α}

/-- The producer can only forget some of the goal. -/
theorem later (h : feed.Covers goal items) (hlater : feed.Later feed') :
    feed'.Covers goal items where
  created := fun item hitem => hlater.created_prefix.subset (h.created item hitem)
  settled := by
    intro item hitem
    rw [hlater.delivered_eq]
    exact (h.settled item hitem).imp_right fun hdone =>
      hdone.imp_right (hlater.forgotten item (h.created item hitem))

/-- An item that was delivered is not left any more. -/
theorem delivered (h : feed.Covers goal (item :: items)) :
    (feed.deliver item).Covers goal items where
  created := h.created
  settled := by
    intro other hother
    rcases h.settled other hother with hmem | hdelivered | hgone
    · rcases List.mem_cons.1 hmem with rfl | hrest
      · exact .inr (.inl (List.mem_append_right _ List.mem_cons_self))
      · exact .inl hrest
    · exact .inr (.inl (List.mem_append_left _ hdelivered))
    · exact .inr (.inr hgone)

/-- Nor is one that was forgotten. -/
theorem lost (h : feed.Covers goal (item :: items)) (hgone : item ∉ feed.kept) :
    feed.Covers goal items where
  created := h.created
  settled := by
    intro other hother
    rcases h.settled other hother with hmem | hdone
    · rcases List.mem_cons.1 hmem with rfl | hrest
      · exact .inr (.inr hgone)
      · exact .inl hrest
    · exact .inr hdone

end Covers

end Feed
