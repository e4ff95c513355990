import MessageBroker.Proofs.Http.Run
import MessageBroker.Proofs.Store.Independence
import MessageBroker.Proofs.Validation

/-! # Requests below the path of a queue

The path of a request names a queue, and what the request does stays within the queue. A path that
is that of a queue or goes on below it, whatever is escaped in the rest (`liesUnder_of_path`), has
segments that begin with those of the queue (`LiesUnder.segments`). So the request is for one of ten
endpoints and has the queue for its first parameter (`LiesUnder.endpoint?`); the call that it makes
is on the queue (`onQueue_of_call`), and the effects of such calls leave the other queues and their
messages (`Effect.confined`). Two of the ten endpoints have a second parameter. They acknowledge or
return the message that it names, and do not ask for its queue. -/

namespace MessageBroker

open Broker (Call)
open Fallible

/-! ### Calls on a queue -/

namespace Broker

/-- A call is on the queue with an identifier, or on a single message, whatever its queue. -/
def Call.OnQueue (id : String) : Call → Prop
  | .updateQueue q => q.id = id
  | .getQueue id' | .deleteQueue id' | .queueStats id' | .purge id' | .cleanup id'
  | .createMessage id' _ | .lease id' _ _ => id' = id
  | .ack _ | .nack _ _ => True
  | _ => False

/-- The identifier of the message that a call marks as acknowledged or returned. -/
def Call.marked? : Call → Option String
  | .ack id | .nack id _ => some id
  | _ => none

/-- What a call makes of the message that it marks. -/
def Call.mark (now : Instant) : Call → Message → Message
  | .ack _, m => m.ack now
  | .nack _ timeout, m => m.nack now timeout
  | _, m => m

section Effects

open Store (MessageRow)

variable {now : Instant} {b b' : Broker} {c : Call} {result : Store.Result} {id : String}

/-- Whether a row is that of a message outside a queue that a call does not mark. -/
def Call.passesOver (c : Call) (id : String) (r : MessageRow) : Bool :=
  r.queueId ≠ id ∧ c.marked? ≠ some r.id

/-- A lease on a queue passes over the messages of others. -/
theorem claimedRows_confined (hb : b.store.Keyed) {q : Queue} {ms : List Message}
    {p : MessageRow → Bool}
    (hread : ∀ m ∈ ms, ∃ r ∈ b.store.messages, r.decode? = some m ∧ r.queueId = q.id)
    (hp : ∀ r r' : MessageRow, r'.id = r.id → r'.queueId = r.queueId → p r' = p r)
    (hqueue : ∀ r, p r = true → r.queueId ≠ q.id) :
    (Store.claimedRows q now ms b.store.messages).filter p = b.store.messages.filter p := by
  rw [Store.claimedRows_eq_map]
  refine Store.filter_map_of_imp (fun r => ?_) fun r hr hpr => ?_
  · exact hp _ _ (Store.key_foldl_claimed ms r).1 (Store.key_foldl_claimed ms r).2
  · refine Store.foldl_claimed_of_ne fun m hm hid => hqueue r hpr ?_
    obtain ⟨r₀, hr₀, hdecode, hr₀queue⟩ := hread m hm
    rw [hb.eq_of_id hr₀ hr (hid.symm.trans (MessageRow.decode?_eq_some hdecode).1), hr₀queue]

/-- **A call on a queue leaves other queues, and their messages** but for the one that it marks. -/
theorem Effect.confined (h : Effect now b c result b') (hb : b.store.Keyed)
    (hc : c.OnQueue id) :
    (b'.store.queues.filter fun r => r.id ≠ id) = (b.store.queues.filter fun r => r.id ≠ id) ∧
      b'.store.messages.filter (c.passesOver id) = b.store.messages.filter (c.passesOver id) := by
  cases h with
  | read => exact ⟨rfl, rfl⟩
  | @updateQueue q stored hvalid hstored hid =>
    refine ⟨Store.filter_map_of_imp (fun r => ?_) fun r _ hr => ?_, rfl⟩
    · split_ifs with he
      · rw [he]
        rfl
      · rfl
    · have hne : r.id ≠ q.id := fun he => of_decide_eq_true hr (he.trans hc)
      rw [if_neg hne]
  | deleteQueue id' =>
    obtain rfl : id' = id := hc
    exact ⟨Store.filter_filter_of_imp fun r _ hr => by simpa using hr, rfl⟩
  | purge id' =>
    obtain rfl : id' = id := hc
    exact ⟨rfl, Store.filter_filter_of_imp fun r _ hr => by simp_all [Call.passesOver]⟩
  | cleanup id' =>
    obtain rfl : id' = id := hc
    exact ⟨rfl, Store.filter_filter_of_imp fun r _ hr => by simp_all [Call.passesOver]⟩
  | @createMessage queueId content m hbody hm hid hkeyed =>
    obtain rfl : queueId = id := hc
    refine ⟨rfl, ?_⟩
    simp [Store.addMessages, Call.passesOver, MessageRow.ofMessage, hid]
  | @lease q label limit ms hq hids hread =>
    obtain rfl : q.id = id := hc
    refine ⟨rfl,
      claimedRows_confined hb (fun m hm => ?_) (fun r r' hid hqueue => ?_) fun r hr => ?_⟩
    · obtain ⟨r, hr, hdecode, hqueue, -⟩ := hread m hm
      exact ⟨r, hr, hdecode, hqueue⟩
    · simp [Call.passesOver, hid, hqueue]
    · exact (of_decide_eq_true hr).1
  | @ack r₀ m hr₀ hdecode =>
    refine ⟨rfl, Store.filter_map_of_imp (fun r => ?_) fun r _ hr => ?_⟩
    · split_ifs <;> rfl
    · rw [if_neg fun he => (of_decide_eq_true hr).2 (congrArg some he.symm)]
  | @nack r₀ m hr₀ hdecode timeout =>
    refine ⟨rfl, Store.filter_map_of_imp (fun r => ?_) fun r _ hr => ?_⟩
    · split_ifs <;> rfl
    · rw [if_neg fun he => (of_decide_eq_true hr).2 (congrArg some he.symm)]
  | _ => exact hc.elim

theorem Effect.exists_of_marked (h : Effect now b c result b') (hc : c.marked? = some id) :
    ∃ r ∈ b.store.messages, r.id = id ∧ ∃ m, r.decode? = some m := by
  cases h with
  | @ack r₀ m hr₀ hdecode | @nack r₀ m hr₀ hdecode timeout =>
    exact ⟨r₀, hr₀, Option.some.inj hc, m, hdecode⟩
  | read hreads =>
    cases c with
    | ack | nack => cases hreads
    | _ => cases hc
  | _ => cases hc

theorem mark_id (c : Call) (now : Instant) (m : Message) : (c.mark now m).id = m.id := by
  cases c <;> rfl

theorem perform_of_marked (now : Instant) (hc : c.marked? = some id) :
    let answer := (Store.getMessage id >>= fun m => Store.updateMessage (c.mark now m)) b.store
    (perform now c).on b = (answer.1.map fun _ => .done, { b with store := answer.2 }) := by
  cases c with
  | ack id' | nack id' timeout =>
    obtain rfl := Option.some.inj hc
    exact bind_pure_apply _ _ b
  | _ => cases hc

/-- A call marks the message with the identifier, whatever its queue. -/
theorem perform_marks (now : Instant) (hb : b.store.Keyed) (hc : c.marked? = some id)
    {r : MessageRow} (hr : r ∈ b.store.messages) (hid : r.id = id) {m : Message}
    (hdecode : r.decode? = some m) : (perform now c).on b = (.ok .done, { b with
      store.messages := b.store.messages.map fun r =>
        if r.id = id then r.rewritten (c.mark now m) else r }) := by
  subst hid
  have hget : Store.getMessage r.id b.store = (.ok m, b.store) :=
    Store.get_of_mem hb.toUndisturbed .message hb.ids hr hdecode
  rw [perform_of_marked now hc]
  simp only [Store.rewrite_eq hb.toUndisturbed (mark_id c now) hget]
  rfl

theorem perform_of_unmarked (now : Instant) (hb : b.store.Keyed) (hc : c.marked? = some id)
    (hid : ∀ r ∈ b.store.messages, r.id ≠ id) :
    (perform now c).on b = (.error (.notFound .message id), b) := by
  have hget : Store.getMessage id b.store = (.error (.notFound .message id), b.store) :=
    Store.get_of_ne hb.toUndisturbed .message MessageRow.decode? hid
  rw [perform_of_marked now hc]
  simp only [bind_error hget]
  rfl

end Effects

end Broker

/-! ### Paths below that of a queue -/

namespace Http

open Text

/-- An endpoint is for a queue, or for something below its path. -/
def Endpoint.isBelowQueue : Endpoint → Bool
  | .getQueue | .updateQueue | .deleteQueue | .queueStats | .purgeQueue | .cleanupQueue
  | .createMessage | .leaseMessages | .ackMessage | .nackMessage => true
  | _ => false

/-- The pattern of the path of a queue. -/
def queuePattern : List Segment := [.word "v1", .word "queues", .parameter "queue_id"]

/-- The pattern of a route goes on from that of a queue, or is apart from it. -/
theorem routes_belowQueue : ∀ route ∈ routes, apart queuePattern route.pattern = true ∨
    route.pattern.take 3 = queuePattern ∧ route.endpoint.isBelowQueue = true := by
  decide

theorem splitSlashes_of_not_mem {l : List Char} (h : '/' ∉ l) : splitSlashes l = [l] := by
  induction l with
  | nil => rfl
  | cons c l ih =>
    obtain ⟨hc, hl⟩ := not_or.mp (List.mem_cons.not.mp h)
    rw [splitSlashes, if_neg (Ne.symm hc), ih hl]

theorem splitSlashes_append {l : List Char} (h : '/' ∉ l) (r : List Char) :
    splitSlashes (l ++ '/' :: r) = l :: splitSlashes r := by
  induction l with
  | nil => rw [List.nil_append, splitSlashes, if_pos rfl]
  | cons c l ih =>
    obtain ⟨hc, hl⟩ := not_or.mp (List.mem_cons.not.mp h)
    rw [List.cons_append, splitSlashes, if_neg (Ne.symm hc), ih hl]

theorem isIdChar_of_isValidId {id : String} (h : isValidId id = true) :
    ∀ c ∈ id.toList, isIdChar c = true :=
  List.all_eq_true.mp (Bool.and_eq_true_iff.mp h).2

theorem slash_not_mem {id : String} (h : isValidId id = true) : '/' ∉ id.toList := by
  intro hc
  cases isIdChar_of_isValidId h _ hc

theorem segments_queuePath {id : String} (h : '/' ∉ id.toList) :
    segments ("/v1/queues/" ++ id) = ["v1", "queues", id] ∧
      ∀ rest : String, segments ("/v1/queues/" ++ id ++ "/" ++ rest) =
        "v1" :: "queues" :: id :: (splitSlashes rest.toList).map String.ofList := by
  have hv1 : '/' ∉ "v1".toList := by decide
  have hqueues : '/' ∉ "queues".toList := by decide
  have hbegin : "/v1/queues/".toList =
      '/' :: ("v1".toList ++ '/' :: ("queues".toList ++ ['/'])) := by
    decide +kernel
  constructor
  · rw [segments, String.toList_append, hbegin]
    simp only [List.cons_append, List.append_assoc, List.nil_append, splitSlashes, if_pos,
      splitSlashes_append hv1, splitSlashes_append hqueues, splitSlashes_of_not_mem h]
    simp
  · intro rest
    have hslash : "/".toList = ['/'] := by decide
    rw [segments, String.toList_append, String.toList_append, String.toList_append, hbegin, hslash]
    simp only [List.cons_append, List.append_assoc, List.nil_append, splitSlashes, if_pos,
      splitSlashes_append hv1, splitSlashes_append hqueues, splitSlashes_append h]
    simp

namespace Request

/-- The path of a request, with most escapes decoded, is that of a queue or goes on below it. -/
def LiesUnder (r : Request) (id : String) : Prop :=
  r.decodedPath = "/v1/queues/" ++ id ∨ ∃ rest, r.decodedPath = "/v1/queues/" ++ id ++ "/" ++ rest

variable {r : Request} {id : String} {most : UInt32} {c : Call}

/-- A path that is sent without escapes up to the end of the queue lies under the queue, whatever is
escaped in the rest. -/
theorem liesUnder_of_path (hid : isValidId id = true)
    (h : r.path = "/v1/queues/" ++ id ∨ ∃ rest, r.path = "/v1/queues/" ++ id ++ "/" ++ rest) :
    r.LiesUnder id := by
  have hbegin : ("/v1/queues/".toList.all fun c => c == '/' || isIdChar c) = true := by cbv
  have hplain : Unescaped ("/v1/queues/" ++ id).toList := by
    intro c hc
    rw [String.toList_append] at hc
    rcases List.mem_append.mp hc with hc | hc
    · exact unescaped_isIdChar (by simpa using List.all_eq_true.mp hbegin c hc)
    · exact unescaped_isIdChar (Or.inr (isIdChar_of_isValidId hid c hc))
  rcases h with hpath | ⟨rest, hpath⟩
  · left
    rw [decodedPath, hpath, decodeText_eq _ hplain]
  · right
    have hslash : Unescaped ("/v1/queues/" ++ id ++ "/").toList := by
      intro c hc
      rw [String.toList_append] at hc
      rcases List.mem_append.mp hc with hc | hc
      · exact hplain c hc
      · obtain rfl := List.mem_singleton.mp hc
        decide
    rw [decodedPath, hpath, decodeText_append _ hslash]
    exact ⟨_, rfl⟩

theorem LiesUnder.segments (h : r.LiesUnder id) (hid : isValidId id = true) :
    ∃ rest, Http.segments r.decodedPath = "v1" :: "queues" :: id :: rest := by
  obtain ⟨hsegments, hbelow⟩ := segments_queuePath (slash_not_mem hid)
  rcases h with hpath | ⟨rest, hpath⟩ <;> rw [hpath]
  · exact ⟨[], hsegments⟩
  · exact ⟨_, hbelow rest⟩

/-- **A path below that of a queue names the queue**: its endpoint has it as the first parameter. -/
theorem LiesUnder.endpoint? (h : r.LiesUnder id) (hid : isValidId id = true) {e : Endpoint}
    {values : List String} (hfound : r.endpoint? = some (e, values)) :
    e.isBelowQueue = true ∧ values.length = e.arity ∧ ∃ rest, values = id :: rest := by
  obtain ⟨⟨e', raw⟩, hraw, heq⟩ := Option.map_eq_some_iff.mp hfound
  obtain ⟨rfl, rfl⟩ := Prod.mk.inj heq
  obtain ⟨route, hroute, -, rfl, hinst⟩ := Http.endpoint?_eq_some_iff.mp hraw
  obtain ⟨rest, hsegments⟩ := h.segments hid
  rw [hsegments] at hinst
  rcases routes_belowQueue route hroute with hapart | ⟨htake, hbelow⟩
  · have hne : id ≠ "" := by
      rintro rfl
      rw [isValidId_empty] at hid
      cases hid
    have hnone := hinst.enter?_eq_none hapart
    simp [queuePattern, enter?, hne] at hnone
  · refine ⟨hbelow, ?_, ?_⟩
    · rw [List.length_map, hinst.length_values, arity_routes route hroute]
    · rw [← List.take_append_drop 3 route.pattern, htake] at hinst
      cases hinst with
      | word _ hinst =>
        cases hinst with
        | word _ hinst =>
          cases hinst with
          | parameter _ _ hinst =>
            have hself : Percent.decodeText (fun _ => false) id = id :=
              decodeText_eq _ fun c hc =>
                unescaped_isIdChar (Or.inr (isIdChar_of_isValidId hid c hc))
            exact ⟨_, by rw [List.map_cons, hself]⟩

/-- **A request below the path of a queue makes a call on the queue.** -/
theorem onQueue_of_call {e : Endpoint} (he : e.isBelowQueue = true) {rest : List String}
    (h : r.call most (id :: rest) e = .ok c) : c.OnQueue id := by
  cases e with
  | getQueue | deleteQueue | queueStats | purgeQueue | cleanupQueue | ackMessage =>
    cases h
    first | rfl | trivial
  | updateQueue =>
    obtain ⟨q, hbody, rfl⟩ := map_eq_ok_iff.mp h
    exact id_of_decode_newSettings (fromBody_eq_ok_iff.mp hbody).2
  | createMessage =>
    obtain ⟨content, -, rfl⟩ := map_eq_ok_iff.mp h
    rfl
  | leaseMessages =>
    obtain ⟨query, -, rfl⟩ := map_eq_ok_iff.mp h
    rfl
  | nackMessage =>
    obtain ⟨timeout, -, rfl⟩ := map_eq_ok_iff.mp h
    trivial
  | _ => cases he

/-- A request below the path of a queue that marks a message is for one of two endpoints, and names
the message in its path. -/
theorem eq_of_marked {e : Endpoint} (he : e.isBelowQueue = true) {rest : List String}
    (hlength : (id :: rest).length = e.arity) (h : r.call most (id :: rest) e = .ok c)
    {messageId : String} (hc : c.marked? = some messageId) : rest = [messageId] ∧
      (e = .ackMessage ∧ c = .ack messageId ∨
        ∃ timeout, e = .nackMessage ∧ c = .nack messageId timeout) := by
  cases e with
  | getQueue | deleteQueue | queueStats | purgeQueue | cleanupQueue =>
    cases h
    cases hc
  | updateQueue | createMessage | leaseMessages =>
    obtain ⟨_, -, rfl⟩ := map_eq_ok_iff.mp h
    cases hc
  | ackMessage =>
    obtain ⟨messageId', rfl⟩ := List.length_eq_one_iff.mp (Nat.succ.inj hlength)
    cases h
    cases hc
    exact ⟨rfl, Or.inl ⟨rfl, rfl⟩⟩
  | nackMessage =>
    obtain ⟨messageId', rfl⟩ := List.length_eq_one_iff.mp (Nat.succ.inj hlength)
    obtain ⟨timeout, -, rfl⟩ := map_eq_ok_iff.mp h
    cases hc
    exact ⟨rfl, Or.inr ⟨timeout, rfl, rfl⟩⟩
  | _ => cases he

theorem LiesUnder.exists_of_call? (h : r.LiesUnder id) (hid : isValidId id = true)
    (hcall : r.call? most = some c) : ∃ e rest, r.endpoint? = some (e, id :: rest) ∧
      e.isBelowQueue = true ∧ (id :: rest).length = e.arity ∧
        r.call most (id :: rest) e = .ok c := by
  obtain ⟨e, values, hfound, hvalues⟩ := Request.exists_of_call? hcall
  obtain ⟨hbelow, hlength, rest, rfl⟩ := h.endpoint? hid hfound
  exact ⟨e, rest, hfound, hbelow, hlength, hvalues⟩

end Request

/-! ### The answers and the rows left -/

variable {r : Request} {q id : String} {b : Broker} {c : Call}

theorem store_of_call? (now : Instant) (h : r.call? b.maxLease = some c) :
    (serve r now b).2.store = ((Broker.perform now c).on b).2.store := by
  rw [serve_of_call? now h]
  rfl

/-- A request below the path of a queue leaves the other queues, and the messages outside the queue
that its call does not mark. -/
theorem Request.LiesUnder.confined (h : r.LiesUnder q) (hq : isValidId q = true) (now : Instant)
    (hb : b.store.Keyed) :
    let after := (serve r now b).2.store
    let marked? := (r.call? b.maxLease).bind Call.marked?
    (after.queues.filter fun row => row.id ≠ q) = (b.store.queues.filter fun row => row.id ≠ q) ∧
      (after.messages.filter fun row => row.queueId ≠ q ∧ marked? ≠ some row.id) =
        (b.store.messages.filter fun row => row.queueId ≠ q ∧ marked? ≠ some row.id) := by
  cases hcall : r.call? b.maxLease with
  | none =>
    obtain ⟨response, hserve⟩ := serve_of_no_call now hcall
    rw [hserve]
    exact ⟨rfl, rfl⟩
  | some c =>
    obtain ⟨e, rest, -, hbelow, -, hvalues⟩ := h.exists_of_call? hq hcall
    rw [store_of_call? now hcall]
    rcases Broker.perform_cases now hb c with ⟨result, -, heffect⟩ | ⟨e, n, herror⟩
    · exact heffect.confined hb (Request.onQueue_of_call hbelow hvalues)
    · rw [herror]
      exact ⟨rfl, rfl⟩

theorem store_of_undecoded (now : Instant) (hb : b.store.Keyed)
    (hcall : r.call? b.maxLease = some c) (hc : c.marked? = some id)
    (hnone : ∀ row ∈ b.store.messages, row.id = id → row.decode? = none) :
    (serve r now b).2.store = b.store := by
  rw [store_of_call? now hcall]
  rcases Broker.perform_cases now hb c with ⟨result, -, heffect⟩ | ⟨e, n, herror⟩
  · obtain ⟨row, hrow, hid, m, hdecode⟩ := heffect.exists_of_marked hc
    rw [hnone row hrow hid] at hdecode
    cases hdecode
  · rw [herror]
    rfl

/-- **A request stays within the queue that its path names**, apart from the message that it
acknowledges or returns. It leaves all other queues, and all messages outside the queue but for the
one that it marks. It marks a message only if it is for one of the two endpoints whose path names
one, and then this message, whatever queue it is in: if the message is stored, the request is
answered with status 204 and its row rewritten, and no other; if no row holds the message, nothing
changes, and if no row has its identifier, the answer is that it was not found. -/
theorem requests_are_confined {r : Request} {q : String} (hq : isValidId q = true)
    (hpath : r.LiesUnder q) (now : Instant) {b : Broker} (hb : b.store.Keyed) :
    let after := (serve r now b).2.store
    let marked? := (r.call? b.maxLease).bind Call.marked?
    (after.queues.filter fun row => row.id ≠ q) = (b.store.queues.filter fun row => row.id ≠ q) ∧
    (after.messages.filter fun row => row.queueId ≠ q ∧ marked? ≠ some row.id) =
      (b.store.messages.filter fun row => row.queueId ≠ q ∧ marked? ≠ some row.id) ∧
    ∀ c id, r.call? b.maxLease = some c → c.marked? = some id →
      (r.endpoint? = some (.ackMessage, [q, id]) ∧ c = .ack id ∨
        ∃ timeout, r.endpoint? = some (.nackMessage, [q, id]) ∧ c = .nack id timeout) ∧
      (∀ row ∈ b.store.messages, row.id = id → ∀ m, row.decode? = some m →
        serve r now b = (⟨204, none⟩, r.counted 204 { b with
          store.messages := b.store.messages.map fun row =>
            if row.id = id then row.rewritten (c.mark now m) else row })) ∧
      ((∀ row ∈ b.store.messages, row.id = id → row.decode? = none) → after = b.store) ∧
      ((∀ row ∈ b.store.messages, row.id ≠ id) →
        serve r now b = (.ofError (.notFound .message id), r.counted 404 b)) := by
  obtain ⟨hqueues, hmessages⟩ := hpath.confined hq now hb
  refine ⟨hqueues, hmessages, fun c id hcall hc => ⟨?_, fun row hrow hid m hdecode => ?_, ?_, ?_⟩⟩
  · obtain ⟨e, rest, hfound, hbelow, hlength, hvalues⟩ := hpath.exists_of_call? hq hcall
    obtain ⟨rfl, ⟨rfl, rfl⟩ | ⟨timeout, rfl, rfl⟩⟩ := Request.eq_of_marked hbelow hlength hvalues hc
    · exact Or.inl ⟨hfound, rfl⟩
    · exact Or.inr ⟨timeout, hfound, rfl⟩
  · have hserve := serve_of_call? now hcall
    rw [Broker.perform_marks now hb hc hrow hid hdecode] at hserve
    refine hserve.trans ?_
    cases c with
    | ack | nack => rfl
    | _ => cases hc
  · exact store_of_undecoded now hb hcall hc
  · intro hnone
    have hserve := serve_of_call? now hcall
    rw [Broker.perform_of_unmarked now hb hc hnone] at hserve
    exact hserve

/-- Two queues, with a message in each. -/
def twoQueueBroker : Broker :=
  .start .serials { Store.twoQueues with
    queues := [.ofQueue Store.sampleQueue, .ofQueue { Store.sampleQueue with id := "p" }] } 2

/-- A request to purge the first of the queues. -/
def purgeRequest : Request := ⟨"PUT", "/v1/queues/q/purge", []⟩

/-- The purge of the first queue leaves the message in the second. -/
theorem purgeRequest_is_confined : isValidId "q" = true ∧ purgeRequest.LiesUnder "q" ∧
    twoQueueBroker.store.Keyed ∧
    (serve purgeRequest .epoch twoQueueBroker).2.store.messages.map (·.id) = ["b"] ∧
    ((serve purgeRequest .epoch twoQueueBroker).2.store.messages.filter fun row =>
        row.queueId ≠ "q" ∧ (purgeRequest.call? 2).bind Call.marked? ≠ some row.id) =
      twoQueueBroker.store.messages.filter fun row =>
        row.queueId ≠ "q" ∧ (purgeRequest.call? 2).bind Call.marked? ≠ some row.id := by
  have hvalid : isValidId "q" = true := by decide
  have hpath : purgeRequest.LiesUnder "q" :=
    Request.liesUnder_of_path hvalid (Or.inr ⟨"purge", by cbv⟩)
  have hkeyed : twoQueueBroker.store.Keyed := ⟨⟨rfl, rfl, rfl⟩, by decide⟩
  have hpurge :
      (serve purgeRequest .epoch twoQueueBroker).2.store.messages.map (·.id) = ["b"] := by cbv
  exact ⟨hvalid, hpath, hkeyed, hpurge,
    (requests_are_confined (b := twoQueueBroker) hvalid hpath .epoch hkeyed).2.1⟩

/-- A request to acknowledge the message of the second queue below the path of the first. -/
def strayRequest : Request := ⟨"PUT", "/v1/queues/q/messages/b/ack", []⟩

/-- The queue in a path is not asked for: a message of another queue is acknowledged below it. -/
theorem strayRequest_acknowledges : isValidId "q" = true ∧ strayRequest.LiesUnder "q" ∧
    twoQueueBroker.store.Keyed ∧ (Store.siblingMessage "b").queueId = "p" ∧
    (serve strayRequest .epoch twoQueueBroker).1 = ⟨204, none⟩ ∧
    ((serve strayRequest .epoch twoQueueBroker).2.store.messages.filter fun row =>
        row.queueId ≠ "q") ≠ twoQueueBroker.store.messages.filter fun row => row.queueId ≠ "q" := by
  have hvalid : isValidId "q" = true := by decide
  have hpath : strayRequest.LiesUnder "q" :=
    Request.liesUnder_of_path hvalid (Or.inr ⟨"messages/b/ack", by cbv⟩)
  have hkeyed : twoQueueBroker.store.Keyed := ⟨⟨rfl, rfl, rfl⟩, by decide⟩
  exact ⟨hvalid, hpath, hkeyed, rfl, by cbv, by decide +kernel⟩

end Http

end MessageBroker
