import MessageBroker.Proofs.Http.Query
import MessageBroker.Proofs.Json.Record

/-! # What a body says

The body of a request is a JSON object with some of the fields that are known, in any order. Each of
the readers of bodies takes from it what it says, and the default for every field that it leaves
out (`decode_newQueue` and its siblings). -/

namespace MessageBroker.Http.Request

open Json

/-! ### Queues -/

/-- The settings of a queue as they are written, as far as they are. -/
def writtenSettings (ack retention delay : Option UInt32) : List (String × Json) :=
  entryOf "ack_deadline_seconds" .ofWord ack ++ entryOf "message_retention_seconds" .ofWord retention
    ++ entryOf "delivery_delay_seconds" .ofWord delay

/-- The members that hold the settings of a queue. -/
def settingMembers (ack retention delay : Option UInt32) : List (Member Queue) :=
  memberOf "ack_deadline_seconds" .ofWord (fun q n => { q with ackDeadlineSeconds := n }) ack
    ++ memberOf "message_retention_seconds" .ofWord
      (fun q n => { q with messageRetentionSeconds := n }) retention
    ++ memberOf "delivery_delay_seconds" .ofWord (fun q n => { q with deliveryDelaySeconds := n })
      delay

section Settings

variable {ack retention delay : Option UInt32}

theorem map_entry_settingMembers : (settingMembers ack retention delay).map Member.entry =
    writtenSettings ack retention delay := by
  simp only [settingMembers, writtenSettings, List.map_append, map_entry_memberOf]

/-- **New settings without a field have zero for it**, whatever the identifier is. -/
theorem decode_newSettings (id : String) {members : List (String × Json)}
    (h : members.Perm (writtenSettings ack retention delay)) :
    decode (newSettings id) (Text.bytes (Json.object members).render) =
      .ok ⟨id, ack.getD 0, retention.getD 0, delay.getD 0, .epoch, .epoch⟩ := by
  have hreads : ∀ e ∈ settingMembers ack retention delay, Reads settings e := by
    simp only [settingMembers, List.forall_mem_append]
    refine ⟨⟨?_, ?_⟩, ?_⟩
    · exact reads_memberOf readsMember_word rfl
    · exact reads_memberOf readsMember_word rfl
    · exact reads_memberOf readsMember_word rfl
  have hapart : (settingMembers ack retention delay).Pairwise Member.Apart := by
    simp [settingMembers, Member.Apart, List.pairwise_append, pairwise_memberOf,
      forall_mem_memberOf, or_imp, forall_and]
  rw [← map_entry_settingMembers] at h
  rw [newSettings, decode_of_perm hreads hapart h]
  cases ack <;> cases retention <;> cases delay <;> rfl

theorem id_of_decode_newSettings {id : String} {l : List UInt8} {q : Queue}
    (h : decode (newSettings id) l = .ok q) : q.id = id := by
  have hkeeps : ∀ f ∈ settings, f.Keeps Queue.id := by
    intro f hf
    simp only [settings, List.mem_cons, List.not_mem_nil, or_false] at hf
    rcases hf with rfl | rfl | rfl <;> exact Field.keeps_ofReader _ _ fun _ _ => rfl
  exact key_of_decode hkeeps h

/-- **A new queue without a field has the default for it**: an empty identifier, or zero. -/
theorem decode_newQueue {id : Option String} {members : List (String × Json)}
    (h : members.Perm (entryOf "id" .text id ++ writtenSettings ack retention delay)) :
    decode newQueue (Text.bytes (Json.object members).render) =
      .ok ⟨id.getD "", ack.getD 0, retention.getD 0, delay.getD 0, .epoch, .epoch⟩ := by
  let idMember : List (Member Queue) := memberOf "id" .text (fun q s => { q with id := s }) id
  have hreads : ∀ e ∈ idMember ++ settingMembers ack retention delay,
      Reads (.ofReader "id" .text (fun q s => { q with id := s }) :: settings) e := by
    simp only [idMember, settingMembers, List.forall_mem_append]
    refine ⟨?_, ⟨?_, ?_⟩, ?_⟩
    · exact reads_memberOf readsBack_text.readsMember rfl
    · exact reads_memberOf readsMember_word rfl
    · exact reads_memberOf readsMember_word rfl
    · exact reads_memberOf readsMember_word rfl
  have hapart : (idMember ++ settingMembers ack retention delay).Pairwise Member.Apart := by
    simp [idMember, settingMembers, Member.Apart, List.pairwise_append, pairwise_memberOf,
      forall_mem_memberOf, or_imp, forall_and]
  have hmembers : members.Perm
      ((idMember ++ settingMembers ack retention delay).map Member.entry) := by
    rw [List.map_append, map_entry_settingMembers, map_entry_memberOf]
    exact h
  rw [newQueue, decode_of_perm hreads hapart hmembers]
  cases id <;> cases ack <;> cases retention <;> cases delay <;> rfl

end Settings

/-! ### Messages -/

/-- **A new message without a field has none of it**: no label, an empty body, no attributes. -/
theorem decode_newMessage {label : Option (Option String)} {body : Option String}
    {attributes : Option (Dict String)} {members : List (String × Json)}
    (h : members.Perm (entryOf "label" .ofOptionalText label ++ entryOf "body" .text body ++
      entryOf "attributes" (.ofDict .text) attributes)) :
    decode newMessage (Text.bytes (Json.object members).render) =
      .ok ⟨label.getD none, body.getD "", attributes.getD ∅⟩ := by
  let l : List (Member MessageContent) :=
    memberOf "label" .ofOptionalText (fun c s => { c with label := s }) label
      ++ memberOf "body" .text (fun c s => { c with body := s }) body
      ++ memberOf "attributes" (.ofDict .text) (fun c d => { c with attributes := d }) attributes
  have hreads : ∀ e ∈ l, Reads
      [.ofReader "label" .optionalText fun c s => { c with label := s },
        .ofReader "body" .text fun c s => { c with body := s },
        .ofReader "attributes" (.dict .text) fun c d => { c with attributes := d }] e := by
    simp only [l, List.forall_mem_append]
    refine ⟨⟨?_, ?_⟩, ?_⟩
    · exact reads_memberOf readsBack_optionalText.readsMember rfl
    · exact reads_memberOf readsBack_text.readsMember rfl
    · exact reads_memberOf (readsBack_dict readsBack_text).readsMember rfl
  have hapart : l.Pairwise Member.Apart := by
    simp [l, Member.Apart, List.pairwise_append, pairwise_memberOf, forall_mem_memberOf, or_imp,
      forall_and]
  have hmembers : members.Perm (l.map Member.entry) := by
    simpa only [l, List.map_append, map_entry_memberOf] using h
  rw [newMessage, decode_of_perm hreads hapart hmembers]
  cases label <;> cases body <;> cases attributes <;> rfl

/-! ### Topics and subscriptions -/

/-- **A new topic without an identifier has the empty one.** -/
theorem decode_newTopic {id : Option String} {members : List (String × Json)}
    (h : members.Perm (entryOf "id" .text id)) :
    decode newTopic (Text.bytes (Json.object members).render) = .ok ⟨id.getD "", .epoch⟩ := by
  let l : List (Member Topic) := memberOf "id" .text (fun t s => { t with id := s }) id
  have hreads : ∀ e ∈ l, Reads [.ofReader "id" .text fun t s => { t with id := s }] e :=
    reads_memberOf readsBack_text.readsMember rfl
  have hmembers : members.Perm (l.map Member.entry) := by
    simpa only [l, map_entry_memberOf] using h
  rw [newTopic, decode_of_perm hreads pairwise_memberOf hmembers]
  cases id <;> rfl

/-- **A new subscription without a field has the default for it**: an empty identifier, or no
filters. -/
theorem decode_newSubscription {id topicId queueId : Option String}
    {filters : Option (Dict (List String))} {members : List (String × Json)}
    (h : members.Perm (entryOf "id" .text id ++ entryOf "topic_id" .text topicId ++
      entryOf "queue_id" .text queueId ++
      entryOf "message_filters" (.ofDict fun l => .array (l.map .text)) filters)) :
    decode newSubscription (Text.bytes (Json.object members).render) =
      .ok ⟨id.getD "", topicId.getD "", queueId.getD "", filters.getD ∅, .epoch⟩ := by
  let l : List (Member Subscription) :=
    memberOf "id" .text (fun x s => { x with id := s }) id
      ++ memberOf "topic_id" .text (fun x s => { x with topicId := s }) topicId
      ++ memberOf "queue_id" .text (fun x s => { x with queueId := s }) queueId
      ++ memberOf "message_filters" (.ofDict fun l => .array (l.map .text))
        (fun x d => { x with messageFilters := d }) filters
  have hreads : ∀ e ∈ l, Reads
      [.ofReader "id" .text fun x s => { x with id := s },
        .ofReader "topic_id" .text fun x s => { x with topicId := s },
        .ofReader "queue_id" .text fun x s => { x with queueId := s },
        .ofReader "message_filters" (.dict (.list .text)) fun x d =>
          { x with messageFilters := d }] e := by
    simp only [l, List.forall_mem_append]
    refine ⟨⟨⟨?_, ?_⟩, ?_⟩, ?_⟩
    · exact reads_memberOf readsBack_text.readsMember rfl
    · exact reads_memberOf readsBack_text.readsMember rfl
    · exact reads_memberOf readsBack_text.readsMember rfl
    · exact reads_memberOf (readsBack_dict readsBack_texts).readsMember rfl
  have hapart : l.Pairwise Member.Apart := by
    simp [l, Member.Apart, List.pairwise_append, pairwise_memberOf, forall_mem_memberOf, or_imp,
      forall_and]
  have hmembers : members.Perm (l.map Member.entry) := by
    simpa only [l, List.map_append, map_entry_memberOf] using h
  rw [newSubscription, decode_of_perm hreads hapart hmembers]
  cases id <;> cases topicId <;> cases queueId <;> cases filters <;> rfl

end MessageBroker.Http.Request
