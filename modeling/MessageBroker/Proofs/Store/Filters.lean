import MessageBroker.Proofs.Dict
import MessageBroker.Proofs.Store.Refusal

/-! # Which messages a subscription accepts

Filters accept attributes that have, at every key of the filters, one of the values accepted there
(`accepts_iff`). So filters accept more if they have fewer keys or more values at a key
(`accepts_mono`), and filters on different keys that are merged accept what both accept
(`accepts_merge`). Filters are stored with their entries written in some order. A store decides as
the subscription whose row it holds, whatever the order (`decidesAs_of_stores`). -/

namespace MessageBroker

namespace Subscription

/-! ### Filters -/

/-- Whether attributes meet filters, which are looked at in a given order. -/
def acceptsInOrder (l : List (String × List String)) (attributes : Dict String) : Bool :=
  l.all fun (key, accepted) =>
    match attributes.get? key with
    | none => false
    | some value => accepted.contains value

theorem acceptsInOrder_iff {l : List (String × List String)} {attributes : Dict String} :
    acceptsInOrder l attributes = true ↔ ∀ key accepted, (key, accepted) ∈ l →
      ∃ value ∈ accepted, attributes.get? key = some value := by
  rw [acceptsInOrder, List.all_eq_true, Prod.forall]
  refine forall₃_congr fun key accepted _ => ?_
  rcases hvalue : attributes.get? key with _ | value
  · simp [hvalue]
  · simp [hvalue]

variable {f g : Dict (List String)} {attributes attributes' : Dict String}

/-- **Every key of the filters must be an attribute with a value accepted.** -/
theorem accepts_iff : accepts f attributes = true ↔
    ∀ key accepted, f.get? key = some accepted →
      ∃ value ∈ accepted, attributes.get? key = some value := by
  have hiff : accepts f attributes = true ↔ _ := acceptsInOrder_iff
  simpa only [Dict.mem_entries_iff] using hiff

theorem accepts_of_perm {l : List (String × List String)} (h : l.Perm f.entries) :
    acceptsInOrder l attributes = accepts f attributes := by
  have hiff : accepts f attributes = true ↔ _ := acceptsInOrder_iff
  rw [Bool.eq_iff_iff, hiff, acceptsInOrder_iff]
  simp only [h.mem_iff]

theorem accepts_congr_attributes
    (h : ∀ key accepted, f.get? key = some accepted → attributes.get? key = attributes'.get? key) :
    accepts f attributes = accepts f attributes' := by
  rw [Bool.eq_iff_iff, accepts_iff, accepts_iff]
  refine forall₃_congr fun key accepted hkey => ?_
  rw [h key accepted hkey]

/-- Filters accept more if every key is a key of the others, which accept fewer values there. -/
theorem accepts_mono (h : ∀ key accepted, g.get? key = some accepted →
    ∃ fewer, f.get? key = some fewer ∧ fewer ⊆ accepted) (hf : accepts f attributes = true) :
    accepts g attributes = true := by
  refine accepts_iff.mpr fun key accepted hkey => ?_
  obtain ⟨fewer, hfewer, hsubset⟩ := h key accepted hkey
  obtain ⟨value, hvalue, hattribute⟩ := accepts_iff.mp hf key fewer hfewer
  exact ⟨value, hsubset hvalue, hattribute⟩

/-- Filters with the same keys and the same values at each, in whatever order and however often. -/
def SameValues (f g : Dict (List String)) : Prop :=
  ∀ key, Option.Rel (fun l l' => ∀ value, value ∈ l ↔ value ∈ l') (f.get? key) (g.get? key)

theorem SameValues.symm (h : SameValues f g) : SameValues g f := by
  intro key
  have hkey := h key
  revert hkey
  rcases f.get? key with _ | l <;> rcases g.get? key with _ | l' <;> intro hkey
  · exact .none
  · cases hkey
  · cases hkey
  · cases hkey with | some hvalues => exact .some fun value => (hvalues value).symm

theorem SameValues.accepts (h : SameValues f g) (hf : accepts f attributes = true) :
    accepts g attributes = true := by
  refine accepts_mono (fun key accepted hkey => ?_) hf
  have hsame := h key
  rw [hkey] at hsame
  rcases hfewer : f.get? key with _ | fewer
  · rw [hfewer] at hsame
    cases hsame
  · rw [hfewer] at hsame
    cases hsame with | some hvalues => exact ⟨fewer, rfl, fun value => (hvalues value).mp⟩

theorem accepts_congr (h : SameValues f g) : accepts f attributes = accepts g attributes :=
  Bool.eq_iff_iff.mpr ⟨h.accepts, h.symm.accepts⟩

theorem accepts_of_insert_new {key : String} {accepted : List String} (hkey : f.get? key = none)
    (h : accepts (f.insert key accepted) attributes = true) : accepts f attributes = true := by
  refine accepts_mono (fun other accepted' hother => ⟨accepted', ?_, List.Subset.refl _⟩) h
  rw [Dict.get?_insert, if_neg fun he => ?_, hother]
  rw [he, hkey] at hother
  cases hother

theorem accepts_insert_more {key : String} {accepted more : List String}
    (hkey : f.get? key = some accepted) (hmore : accepted ⊆ more)
    (h : accepts f attributes = true) : accepts (f.insert key more) attributes = true := by
  refine accepts_mono (fun other accepted' hother => ?_) h
  rw [Dict.get?_insert] at hother
  split_ifs at hother with he
  · cases hother
    exact ⟨accepted, he ▸ hkey, hmore⟩
  · exact ⟨accepted', hother, List.Subset.refl _⟩

/-- **Merged filters on different keys accept what both accept.** -/
theorem accepts_merge (h : ∀ key, f.get? key = none ∨ g.get? key = none) :
    accepts (f.merge g) attributes = (accepts f attributes && accepts g attributes) := by
  rw [Bool.eq_iff_iff, Bool.and_eq_true, accepts_iff, accepts_iff, accepts_iff, ← forall_and]
  refine forall_congr' fun key => ?_
  rw [Dict.get?_merge]
  rcases h key with hkey | hkey
  · simp [hkey]
  · simp [hkey]

end Subscription

/-! ### Stored filters -/

namespace Store

/-- The row stores a subscription, whose filters are written in some order. -/
def SubscriptionRow.Stores (r : SubscriptionRow) (x : Subscription) : Prop :=
  ∃ written : List (String × List String), written.Perm x.messageFilters.entries ∧
    r = { SubscriptionRow.ofSubscription x with
      messageFilters :=
        (Json.object (written.map fun (key, l) => (key, .array (l.map .text)))).render }

theorem SubscriptionRow.stores_ofSubscription (x : Subscription) : (ofSubscription x).Stores x :=
  ⟨_, List.Perm.refl _, rfl⟩

theorem SubscriptionRow.Stores.id_eq {r : SubscriptionRow} {x : Subscription} (h : r.Stores x) :
    r.id = x.id := by
  obtain ⟨_, _, rfl⟩ := h
  rfl

theorem SubscriptionRow.Stores.topicId_eq {r : SubscriptionRow} {x : Subscription}
    (h : r.Stores x) : r.topicId = x.topicId := by
  obtain ⟨_, _, rfl⟩ := h
  rfl

theorem SubscriptionRow.Stores.readBack {r : SubscriptionRow} {x : Subscription} (h : r.Stores x)
    (hx : x.createdAt.IsRepresentable) : r.decode? = some x := by
  obtain ⟨written, hwritten, rfl⟩ := h
  simp only [SubscriptionRow.decode?, ofSubscription, lists?_written hwritten,
    Instant.read?_stored hx]
  rfl

/-- The subscription that a store answers for another accepts the same messages: access by the
identifier answers it, no page of a topic has another, and, if every row is read back, one does. -/
structure DecidesAs (s : Store) (x : Subscription) : Prop where
  get : ∃ y, getSubscription x.id s = (.ok y, s) ∧ ∀ m, y.acceptsMessage m = x.acceptsMessage m
  page : ∀ topicId offset limit ys, (listTopicSubscriptions topicId offset limit s).1 = .ok ys →
    ∀ y ∈ ys, y.id = x.id → ∀ m, y.acceptsMessage m = x.acceptsMessage m
  listed : Legible SubscriptionRow.decode? s.subscriptions → ∃ whole,
    (∀ offset limit, listTopicSubscriptions x.topicId offset limit s =
      (.ok (Store.page offset limit whole), s)) ∧
    ∃ y ∈ whole, y.id = x.id ∧ ∀ m, y.acceptsMessage m = x.acceptsMessage m

/-- **A store decides as the subscription of which it has the row.** -/
theorem decidesAs_of_stores {s : Store} {r : SubscriptionRow} {x : Subscription}
    (hs : s.Undisturbed) (hr : r ∈ s.subscriptions)
    (honly : ∀ other ∈ s.subscriptions, other.id = r.id → other = r) (hstores : r.Stores x)
    (hx : x.createdAt.IsRepresentable) : s.DecidesAs x where
  get := by
    have hrow : rowOf r.id s.subscriptions = .ok r := rowOf_of_only hr honly
    rw [hstores.id_eq] at hrow
    exact ⟨x, get_of_rowOf hs .subscription hrow (hstores.readBack hx), fun _ => rfl⟩
  page := by
    intro topicId offset limit ys hys y hy hid m
    obtain ⟨other, hmem, -, hdecode⟩ := of_listPage hys y hy
    have hsame : other = r := by
      refine honly other hmem ?_
      rw [← SubscriptionRow.id_of_decode? hdecode, hid, hstores.id_eq]
    rw [hsame, hstores.readBack hx] at hdecode
    rw [Option.some.inj hdecode]
  listed := by
    intro hall
    refine ⟨_, listPage_of_legible hs hall x _, x, ?_, rfl, fun _ => rfl⟩
    refine List.mem_map.mpr ⟨r, List.mem_mergeSort.mpr ?_, by rw [hstores.readBack hx]; rfl⟩
    exact List.mem_filter.mpr ⟨hr, decide_eq_true hstores.topicId_eq⟩

theorem decidesAs_of_createSubscription {s : Store} {x : Subscription} (hs : s.Undisturbed)
    (hx : x.createdAt.IsRepresentable) (hid : ∀ r ∈ s.subscriptions, r.id ≠ x.id) :
    ∃ s', createSubscription x s = (.ok (), s') ∧ s'.DecidesAs x := by
  refine ⟨_, insert_of_ne (r := SubscriptionRow.ofSubscription x) hs .subscription hid, ?_⟩
  refine decidesAs_of_stores (r := SubscriptionRow.ofSubscription x)
    (LawfulTableRow.undisturbed_withRows _ hs) (by simp [TableRow.withRows]) ?_
    (SubscriptionRow.stores_ofSubscription x) hx
  intro other hother he
  rcases List.mem_append.mp hother with hother | hother
  · exact absurd he (hid other hother)
  · exact List.mem_singleton.mp hother

/-- **Filters decide by the attributes that they name.** A subscription accepts a message if every
key of its filters is an attribute with a value accepted, so without filters every message, and
with no value accepted at a key none. No other attributes count, nor do the order of the filters and
the order and number of the values. More keys accept less, more values more, and filters merged on
different keys what both accept. So does what is read back of the subscription from a store. -/
theorem filters_decide_by_named_attributes :
    (∀ (x : Subscription) (m : Message), x.acceptsMessage m = true ↔
      ∀ key accepted, x.messageFilters.get? key = some accepted →
        ∃ value ∈ accepted, m.attributes.get? key = some value) ∧
    (∀ (x : Subscription) (m : Message), x.messageFilters = ∅ → x.acceptsMessage m = true) ∧
    (∀ (x : Subscription) (m : Message) key, x.messageFilters.get? key = some [] →
      x.acceptsMessage m = false) ∧
    (∀ (x : Subscription) (m n : Message),
      (∀ key accepted, x.messageFilters.get? key = some accepted →
        m.attributes.get? key = n.attributes.get? key) →
      x.acceptsMessage m = x.acceptsMessage n) ∧
    (∀ (x y : Subscription) (m : Message),
      Subscription.SameValues x.messageFilters y.messageFilters →
        x.acceptsMessage m = y.acceptsMessage m) ∧
    (∀ (x : Subscription) (m : Message) l, l.Perm x.messageFilters.entries →
      Subscription.acceptsInOrder l m.attributes = x.acceptsMessage m ∧
        Dict.ofList l = x.messageFilters) ∧
    (∀ (x y : Subscription) (m : Message) key accepted, x.messageFilters.get? key = none →
      y.messageFilters = x.messageFilters.insert key accepted → y.acceptsMessage m = true →
        x.acceptsMessage m = true) ∧
    (∀ (x y : Subscription) (m : Message) key accepted more,
      x.messageFilters.get? key = some accepted → accepted ⊆ more →
      y.messageFilters = x.messageFilters.insert key more → x.acceptsMessage m = true →
        y.acceptsMessage m = true) ∧
    (∀ (x y z : Subscription) (m : Message),
      (∀ key, x.messageFilters.get? key = none ∨ y.messageFilters.get? key = none) →
      z.messageFilters = x.messageFilters.merge y.messageFilters →
        z.acceptsMessage m = (x.acceptsMessage m && y.acceptsMessage m)) ∧
    ∀ (s : Store) (x : Subscription), s.Undisturbed → x.createdAt.IsRepresentable →
      ((∀ r ∈ s.subscriptions, r.id ≠ x.id) →
        ∃ s', createSubscription x s = (.ok (), s') ∧ s'.DecidesAs x) ∧
      ∀ r ∈ s.subscriptions, r.Stores x →
        (∀ other ∈ s.subscriptions, other.id = r.id → other = r) → s.DecidesAs x := by
  refine ⟨fun x m => Subscription.accepts_iff, fun x m h => ?_, fun x m key h => ?_,
    fun x m n h => Subscription.accepts_congr_attributes h,
    fun x y m h => Subscription.accepts_congr h,
    fun x m l h => ⟨Subscription.accepts_of_perm h, Dict.ofList_of_perm h⟩,
    fun x y m key accepted hkey h hy => ?_, fun x y m key accepted more hkey hmore h hx => ?_,
    fun x y z m hkeys h => ?_, fun s x hs hx => ⟨decidesAs_of_createSubscription hs hx,
    fun r hr hstores honly => decidesAs_of_stores hs hr honly hstores hx⟩⟩
  · refine Subscription.accepts_iff.mpr fun key accepted hkey => ?_
    rw [h] at hkey
    cases hkey
  · rw [← Bool.not_eq_true, Subscription.acceptsMessage, Subscription.accepts_iff]
    intro hall
    obtain ⟨value, hvalue, -⟩ := hall key [] h
    cases hvalue
  · rw [Subscription.acceptsMessage, h] at hy
    exact Subscription.accepts_of_insert_new hkey hy
  · rw [Subscription.acceptsMessage, h]
    exact Subscription.accepts_insert_more hkey hmore hx
  · rw [Subscription.acceptsMessage, h]
    exact Subscription.accepts_merge hkeys

/-- A subscription to small letters and cards. -/
def smallMail : Subscription :=
  ⟨"s", "t", "q", (Dict.empty.insert "size" ["small"]).insert "kind" ["letter", "card"], .epoch⟩

/-- It is read back, and accepts a small letter of any color, but no letter without a size. -/
theorem smallMail_decides : empty.Undisturbed ∧ smallMail.createdAt.IsRepresentable ∧
    ∃ s' y, createSubscription smallMail empty = (.ok (), s') ∧
      getSubscription "s" s' = (.ok y, s') ∧
      y.acceptsMessage (.ofContent ⟨none, "", ((Dict.empty.insert "kind" "letter").insert
        "size" "small").insert "color" "red"⟩) = true ∧
      y.acceptsMessage (.ofContent ⟨none, "", Dict.empty.insert "kind" "letter"⟩) = false := by
  have hcreated : smallMail.createdAt.IsRepresentable := by decide
  obtain ⟨-, -, -, -, -, -, -, -, -, hstores⟩ := filters_decide_by_named_attributes
  obtain ⟨s', hs', hdecides⟩ :=
    (hstores empty smallMail undisturbed_empty hcreated).1 (by simp [empty])
  obtain ⟨y, hy, haccepts⟩ := hdecides.get
  refine ⟨undisturbed_empty, hcreated, s', y, hs', hy, ?_, ?_⟩
  · rw [haccepts]
    decide +kernel
  · rw [haccepts]
    decide +kernel

end Store

end MessageBroker
