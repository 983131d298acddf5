import DistributedBloomFilter.Grpc.Programs
import DistributedBloomFilter.Lib.JsonCodec
import DistributedBloomFilter.Lib.JsonStream
import Mathlib.Data.List.Sort

/-!
# The HTTP gateway

The handlers of `internal/gateway/gateway.go`: each replies at once or makes one call of the gRPC client and replies
with what it returns.  The body of a request is read as a stream, up to the end of its first JSON value, and the body
of a reply is a JSON text with a newline.  No handler sends authentication metadata: `createAuthMetadata` is never
called.

What a client encodes in a request is what the gateway passes on, whatever follows it in the body.  What a client
reads in a reply is what the server answered: the items that a reply confirms are among those whose `Add` returned nil
(`confirmed_resume`), and what it says about an item is what the node said (`finds_resume`).
-/

namespace DistributedBloomFilter

open JsonText (integer encode WellFormed wellFormed_integer)
open Program (Answered Follows)

structure HttpRequest where
  method : String
  path : String
  body : Bytes
  /-- The body ends there; else reading it fails. -/
  complete : Bool
deriving DecidableEq, Repr

structure HttpResponse where
  status : Nat
  header : List (String × String)
  body : Bytes
deriving DecidableEq, Repr

/-- What a handler does: it replies, or calls the service and replies with what the call returns. -/
inductive Handling where
  | reply (resp : HttpResponse)
  | call (q : GrpcRequest) (resume : Except String q.Response → HttpResponse)

namespace Gateway

/-! ### Bodies of requests -/

structure ItemBody where
  item : String

structure ItemsBody where
  items : Decoder.Slice String

def itemBody : Decoder ItemBody :=
  .struct (Decoder.typeError "value of type struct \x7b Item string \"json:\\\"item\\\"\" \x7d")
    [("item", .part (·.item) (fun req item => { req with item := item })
      (.string (Decoder.typeError "struct field .item of type string")))]

def itemsBody : Decoder ItemsBody :=
  .struct (Decoder.typeError "value of type struct \x7b Items []string \"json:\\\"items\\\"\" \x7d")
    [("items", .part (·.items) (fun req items => { req with items := items })
      (.slice (Decoder.typeError "struct field .items of type []string") ""
        (.string (Decoder.typeError "struct field .items of type string"))))]

/-- `json.NewDecoder(r.Body).Decode(&req)`; the text of an error is not used. -/
def decodeBody {α : Type} (decode : Decoder α) (zero : α) (r : HttpRequest) : Option α :=
  match JsonText.firstValue r.complete r.body with
  | none => none
  | some v => (Decoder.run decode zero v).toOption

def readItem (r : HttpRequest) : Option String := (decodeBody itemBody ⟨""⟩ r).map (·.item)

def readItems (r : HttpRequest) : Option (List String) := (decodeBody itemsBody ⟨⟨[], []⟩⟩ r).map (·.items.visible)

/-! ### Replies -/

structure APIResponse where
  success : Bool
  data : Option JsonValue
  error : String
  leader : String

def APIResponse.value (resp : APIResponse) : JsonValue :=
  .object ([("success", .bool resp.success)] ++ (resp.data.map fun data => ("data", data)).toList ++
    JsonValue.omitEmpty "error" resp.error ++ JsonValue.omitEmpty "leader" resp.leader)

/-- The status, and what `json.NewEncoder(w).Encode` writes. -/
def respond (status : Nat) (resp : APIResponse) : HttpResponse :=
  ⟨status, [("Content-Type", "application/json")], encode .compact 0 resp.value ++ [0x0A]⟩

def sendSuccess (data : JsonValue) (leader : String) : HttpResponse := respond 200 ⟨true, some data, "", leader⟩

def sendError (message : String) (statusCode : Nat) : HttpResponse := respond statusCode ⟨false, none, message, ""⟩

def sendRedirect (errorMsg : String) : HttpResponse := respond 307 ⟨false, none, errorMsg, ""⟩

/-- `strings.Contains(msg, "not the leader")`. -/
def isRedirect (msg : String) : Prop := "not the leader".toList <:+: msg.toList

instance (msg : String) : Decidable (isRedirect msg) := inferInstanceAs (Decidable (_ <:+: _))

/-- The reply to `Add` and to `Remove`, which differ in the key of the data. -/
def mutateReply (key : String) : Except String MutateResponse → HttpResponse
  | .error err => sendError ("gRPC error: " ++ err) 500
  | .ok resp =>
    if ¬ resp.success then
      if isRedirect resp.error then sendRedirect resp.error else sendError resp.error 500
    else sendSuccess (.object [(key, .bool true)]) ""

def containsReply : Except String ContainsResponse → HttpResponse
  | .error err => sendError ("gRPC error: " ++ err) 500
  | .ok resp =>
    if resp.error ≠ "" then sendError resp.error 500 else sendSuccess (.object [("exists", .bool resp.found)]) ""

/-- An empty list comes out of the message as a nil slice. -/
def errorsValue : List String → JsonValue
  | [] => .null
  | errors => .array (errors.map .string)

def batchAddReply (items : List String) : Except String BatchAddResponse → HttpResponse
  | .error err => sendError ("gRPC error: " ++ err) 500
  | .ok resp =>
    match resp.errors.head?.filter fun err =>
      resp.failureCount = Int32.ofNat items.length ∧ isRedirect err with
    | some err => sendRedirect err
    | none =>
      sendSuccess (.object [("errors", errorsValue resp.errors), ("failure_count", integer resp.failureCount.toInt),
        ("success_count", integer resp.successCount.toInt)]) ""

/-- `results[item] = result`. -/
def setResult (results : List (String × Bool)) (e : String × Bool) : List (String × Bool) :=
  (results.filter fun e' => e'.1 ≠ e.1) ++ [e]

/-- The map of the results, in the order of its keys. -/
def resultsValue (items : List String) (results : List Bool) : JsonValue :=
  .object ((((items.zip results).foldl setResult []).insertionSort fun a b => a.1 ≤ b.1).map fun e =>
    (e.1, .bool e.2))

def batchContainsReply (items : List String) : Except String BatchContainsResponse → HttpResponse
  | .error err => sendError ("gRPC error: " ++ err) 500
  | .ok resp =>
    if resp.error ≠ "" then sendError resp.error 500
    else sendSuccess (.object [("results", resultsValue items resp.results)]) ""

def statusReply : Except String GetStatsResponse → HttpResponse
  | .error err => sendError ("gRPC error: " ++ err) 500
  | .ok resp =>
    if resp.error ≠ "" then sendError resp.error 500
    else sendSuccess (.object [("bloom_count", integer resp.bloomCount.toInt), ("bloom_k", integer resp.bloomK.toInt),
      ("bloom_size", integer resp.bloomSize.toInt), ("is_leader", .bool resp.isLeader),
      ("leader", .string resp.leader), ("node_id", .string resp.nodeId), ("raft_port", integer resp.raftPort.toInt),
      ("raft_state", .string resp.raftState)]) ""

def clusterReply : Except String GetStatsResponse → HttpResponse
  | .error err => sendError ("gRPC error: " ++ err) 500
  | .ok resp =>
    if resp.error ≠ "" then sendError resp.error 500
    else sendSuccess (.object [("cluster_info", .object [("is_leader", .bool resp.isLeader),
      ("leader", .string resp.leader), ("node_id", .string resp.nodeId), ("raft_state", .string resp.raftState)])]) ""

/-! ### Handlers -/

/-- The checks of the handlers of one item. -/
def withItem (method : String) (r : HttpRequest) (next : String → Handling) : Handling :=
  if r.method ≠ method then .reply (sendError "method not allowed" 405)
  else
    match readItem r with
    | none => .reply (sendError "invalid request body" 400)
    | some item => if item = "" then .reply (sendError "item cannot be empty" 400) else next item

/-- The checks of the handlers of a batch. -/
def withItems (r : HttpRequest) (next : List String → Handling) : Handling :=
  if r.method ≠ "POST" then .reply (sendError "method not allowed" 405)
  else
    match readItems r with
    | none => .reply (sendError "invalid request body" 400)
    | some items => if items.length = 0 then .reply (sendError "no items provided" 400) else next items

/-- The handlers of the status and of the cluster, which differ in the reply. -/
def withStats (reply : Except String GetStatsResponse → HttpResponse) (r : HttpRequest) : Handling :=
  if r.method ≠ "GET" then .reply (sendError "method not allowed" 405) else .call .getStats reply

def handleAdd (r : HttpRequest) : Handling :=
  withItem "POST" r fun item => .call (.write .add (utf8 item)) (mutateReply "added")

def handleRemove (r : HttpRequest) : Handling :=
  withItem "DELETE" r fun item => .call (.write .remove (utf8 item)) (mutateReply "removed")

def handleContains (r : HttpRequest) : Handling :=
  withItem "POST" r fun item => .call (.contains (utf8 item)) containsReply

def handleBatchAdd (r : HttpRequest) : Handling :=
  withItems r fun items => .call (.batchAdd (items.map utf8)) (batchAddReply items)

def handleBatchContains (r : HttpRequest) : Handling :=
  withItems r fun items => .call (.batchContains (items.map utf8)) (batchContainsReply items)

def handleStatus (r : HttpRequest) : Handling := withStats statusReply r

def handleCluster (r : HttpRequest) : Handling := withStats clusterReply r

/-- The handlers that `Start` registers; `elsewhere` is what the multiplexer itself replies to any other path. -/
def mux (elsewhere : HttpRequest → HttpResponse) (r : HttpRequest) : Handling :=
  if r.path = "/api/v1/add" then handleAdd r
  else if r.path = "/api/v1/remove" then handleRemove r
  else if r.path = "/api/v1/contains" then handleContains r
  else if r.path = "/api/v1/batch/add" then handleBatchAdd r
  else if r.path = "/api/v1/batch/contains" then handleBatchContains r
  else if r.path = "/api/v1/status" then handleStatus r
  else if r.path = "/api/v1/cluster" then handleCluster r
  else .reply (elsewhere r)

def corsHeader : List (String × String) :=
  [("Access-Control-Allow-Origin", "*"), ("Access-Control-Allow-Methods", "GET, POST, DELETE, OPTIONS"),
    ("Access-Control-Allow-Headers", "Content-Type, Authorization")]

def withCors (resp : HttpResponse) : HttpResponse := { resp with header := corsHeader ++ resp.header }

def corsMiddleware (next : HttpRequest → Handling) (r : HttpRequest) : Handling :=
  if r.method = "OPTIONS" then .reply ⟨204, corsHeader, []⟩
  else
    match next r with
    | .reply resp => .reply (withCors resp)
    | .call q resume => .call q fun result => withCors (resume result)

/-- The handler of the server; `loggingMiddleware` changes nothing. -/
def serve (elsewhere : HttpRequest → HttpResponse) (r : HttpRequest) : Handling := corsMiddleware (mux elsewhere) r

/-! ### Which requests are passed on -/

/-- The calls that a request is passed on with, and the replies to their results. -/
inductive Passes (r : HttpRequest) : (q : GrpcRequest) → (Except String q.Response → HttpResponse) → Prop
  | write (op : WriteOp) (key item : String) :
      Passes r (.write op (utf8 item)) fun result => withCors (mutateReply key result)
  | contains (item : String) : Passes r (.contains (utf8 item)) fun result => withCors (containsReply result)
  | batchAdd (items : List String) :
      Passes r (.batchAdd (items.map utf8)) fun result => withCors (batchAddReply items result)
  | batchContains {items : List String} (h : readItems r = some items) :
      Passes r (.batchContains (items.map utf8)) fun result => withCors (batchContainsReply items result)
  | status : Passes r .getStats fun result => withCors (statusReply result)
  | cluster : Passes r .getStats fun result => withCors (clusterReply result)

variable {elsewhere : HttpRequest → HttpResponse} {r : HttpRequest} {q : GrpcRequest}
  {resume : Except String q.Response → HttpResponse}

private theorem withItem_eq_call {method : String} {next : String → Handling}
    (h : withItem method r next = .call q resume) : ∃ item, next item = .call q resume := by
  unfold withItem at h
  split at h
  · cases h
  · split at h
    · cases h
    · split at h
      · cases h
      · exact ⟨_, h⟩

private theorem withItems_eq_call {next : List String → Handling} (h : withItems r next = .call q resume) :
    ∃ items, readItems r = some items ∧ next items = .call q resume := by
  unfold withItems at h
  split at h
  · cases h
  · split at h
    · cases h
    · rename_i items hitems
      split at h
      · cases h
      · exact ⟨items, hitems, h⟩

private theorem withStats_eq_call {reply : Except String GetStatsResponse → HttpResponse}
    (h : withStats reply r = .call q resume) : Handling.call .getStats reply = .call q resume := by
  unfold withStats at h
  split at h
  · cases h
  · exact h

theorem passes_of_serve (h : serve elsewhere r = .call q resume) : Passes r q resume := by
  unfold serve corsMiddleware at h
  split at h
  · cases h
  split at h
  · cases h
  rename_i q' resume' hmux
  cases h
  unfold mux at hmux
  split_ifs at hmux
  · obtain ⟨item, hitem⟩ := withItem_eq_call hmux
    cases hitem
    exact .write .add "added" item
  · obtain ⟨item, hitem⟩ := withItem_eq_call hmux
    cases hitem
    exact .write .remove "removed" item
  · obtain ⟨item, hitem⟩ := withItem_eq_call hmux
    cases hitem
    exact .contains item
  · obtain ⟨items, -, hitems⟩ := withItems_eq_call hmux
    cases hitems
    exact .batchAdd items
  · obtain ⟨items, hread, hitems⟩ := withItems_eq_call hmux
    cases hitems
    exact .batchContains hread
  · cases withStats_eq_call hmux
    exact .status
  · cases withStats_eq_call hmux
    exact .cluster

/-- The call that the request is passed on with. -/
def asked (elsewhere : HttpRequest → HttpResponse) (r : HttpRequest) : Option GrpcRequest :=
  match serve elsewhere r with
  | .reply _ => none
  | .call q _ => some q

theorem asked_of_serve (h : serve elsewhere r = .call q resume) : asked elsewhere r = some q := by
  unfold asked
  rw [h]

/-! ### What a client sends and reads -/

/-- A call of the interface by a client. -/
inductive ApiCall where
  | add (item : String)
  | remove (item : String)
  | contains (item : String)
  | batchAdd (items : List String)
  | batchContains (items : List String)
deriving DecidableEq, Repr

namespace ApiCall

def method : ApiCall → String
  | remove _ => "DELETE"
  | _ => "POST"

def path : ApiCall → String
  | add _ => "/api/v1/add"
  | remove _ => "/api/v1/remove"
  | contains _ => "/api/v1/contains"
  | batchAdd _ => "/api/v1/batch/add"
  | batchContains _ => "/api/v1/batch/contains"

def value : ApiCall → JsonValue
  | add item | remove item | contains item => .object [("item", .string item)]
  | batchAdd items | batchContains items => .object [("items", .array (items.map .string))]

/-- A client may lay out the object as it likes and send more behind it. -/
def request (c : ApiCall) (layout : JsonText.Layout) (rest : Bytes) (complete : Bool) : HttpRequest :=
  ⟨c.method, c.path, encode layout 0 c.value ++ rest, complete⟩

end ApiCall

/-- The value at a path of names in the body. -/
def readReply (resp : HttpResponse) (path : List String) : Option JsonValue :=
  (JsonText.parse resp.body).bind fun v => path.foldlM (fun v name => v.member name) v

theorem readReply_sendSuccess {data : JsonValue} (h : WellFormed data) (path : List String) :
    readReply (withCors (sendSuccess data "")) ("data" :: path) = path.foldlM (fun v name => v.member name) data := by
  have hvalue : WellFormed (APIResponse.value ⟨true, some data, "", ""⟩) := by
    refine .object ?_
    simp [JsonValue.omitEmpty]
    exact ⟨.bool true, h⟩
  have hparse : JsonText.parse (withCors (sendSuccess data "")).body =
      some (APIResponse.value ⟨true, some data, "", ""⟩) :=
    JsonText.parse_encode_append .compact hvalue 0 (List.forall_mem_singleton.2 rfl)
  unfold readReply
  rw [hparse]
  rfl

/-- The items of a batch for which the reply has an empty error. -/
def acceptedIn (items : List Bytes) : Option JsonValue → List Bytes
  | some (.array vs) => (items.zip vs).filterMap fun e => if e.2.isEmptyString then some e.1 else none
  | _ => []

/-- The items that the reply to the request confirms as added. -/
def confirmed (elsewhere : HttpRequest → HttpResponse) (r : HttpRequest) (resp : HttpResponse) : List Bytes :=
  if resp.status ≠ 200 then []
  else
    match asked elsewhere r with
    | some (.write .add item) => [item]
    | some (.batchAdd items) => acceptedIn items (readReply resp ["data", "errors"])
    | _ => []

private theorem acceptedIn_errorsValue (items : List Bytes) (errors : List String) :
    acceptedIn items (some (errorsValue errors)) = DBFServer.accepted items errors := by
  cases errors with
  | nil =>
    rw [DBFServer.accepted, List.zip_nil_right]
    rfl
  | cons error errors =>
    show ((items.zip ((error :: errors).map JsonValue.string)).filterMap _) = _
    rw [List.zip_map_right, List.filterMap_map, DBFServer.accepted]
    refine List.filterMap_congr fun e _ => ?_
    simp [JsonValue.isEmptyString]

private theorem status_error (h : serve elsewhere r = .call q resume) (err : String) :
    (resume (.error err)).status = 500 := by
  cases passes_of_serve h <;> rfl

theorem confirmed_error (h : serve elsewhere r = .call q resume) (err : String) :
    confirmed elsewhere r (resume (.error err)) = [] := by
  rw [confirmed, status_error h err]
  rfl

variable {trace : List (Answered NodeCall.Answer)} {a : q.Response}

/-- The items that a reply confirms are among those whose `Add` returned nil. -/
theorem confirmed_resume (h : serve elsewhere r = .call q resume)
    (hdone : Follows (DBFServer.handle q) trace (.done a)) :
    (confirmed elsewhere r (resume (.ok a))).Sublist (DBFServer.granted trace) := by
  unfold confirmed
  rw [asked_of_serve h]
  split
  · exact List.nil_sublist _
  rename_i hstatus
  rw [not_not] at hstatus
  cases passes_of_serve h with
  | write op key item =>
    cases op with
    | remove => exact List.nil_sublist _
    | add =>
      by_cases hsuccess : a.success = true
      · rw [DBFServer.granted_of_write hdone hsuccess]
      · -- the reply would be an error or a redirect
        exfalso
        simp only [mutateReply, if_pos hsuccess] at hstatus
        split at hstatus <;> cases hstatus
  | batchAdd items =>
    rw [DBFServer.granted_of_batchAdd hdone]
    simp only [batchAddReply] at hstatus ⊢
    split
    · rename_i hredirect
      simp only [hredirect] at hstatus
      cases hstatus
    · have hwell : WellFormed (errorsValue a.errors) := by
        cases a.errors with
        | nil => exact .null
        | cons error errors =>
          refine .array fun v hv => ?_
          obtain ⟨text, -, rfl⟩ := List.mem_map.1 hv
          exact .string text
      rw [readReply_sendSuccess (.object (by simpa using ⟨hwell, wellFormed_integer _, wellFormed_integer _⟩))]
      exact (acceptedIn_errorsValue _ _).symm ▸ List.Sublist.refl _
  | contains | batchContains | status | cluster => exact List.nil_sublist _

/-- The reply, if it is no error, says that the item is there. -/
structure Finds (elsewhere : HttpRequest → HttpResponse) (r : HttpRequest) (resp : HttpResponse) (x : Bytes) :
    Prop where
  contains : resp.status = 200 → asked elsewhere r = some (.contains x) →
    readReply resp ["data", "exists"] = some (.bool true)
  batchContains : resp.status = 200 → ∀ xs, asked elsewhere r = some (.batchContains xs) →
    ∀ items, readItems r = some items → ∀ item ∈ items, utf8 item = x →
      readReply resp ["data", "results", item] = some (.bool true)

private theorem mem_of_mem_setResult {es results : List (String × Bool)} {e : String × Bool}
    (h : e ∈ es.foldl setResult results) : e ∈ results ∨ e ∈ es := by
  induction es generalizing results with
  | nil => exact .inl h
  | cons e' es ih =>
    rcases ih h with h | h
    · rcases List.mem_append.1 h with h | h
      · exact .inl (List.mem_filter.1 h).1
      · exact .inr (List.mem_singleton.1 h ▸ List.mem_cons_self)
    · exact .inr (List.mem_cons_of_mem _ h)

private theorem exists_setResult {es results : List (String × Bool)} {key : String}
    (h : (∃ e ∈ results, e.1 = key) ∨ ∃ e ∈ es, e.1 = key) : ∃ e ∈ es.foldl setResult results, e.1 = key := by
  induction es generalizing results with
  | nil => exact h.resolve_right (by simp)
  | cons f es ih =>
    refine ih ?_
    by_cases hf : f.1 = key
    · exact .inl ⟨f, List.mem_append_right _ (List.mem_singleton_self f), hf⟩
    · rcases h with ⟨e, he, hkey⟩ | ⟨e, he, hkey⟩
      · refine .inl ⟨e, List.mem_append_left _ (List.mem_filter.2 ⟨he, ?_⟩), hkey⟩
        simpa [hkey] using Ne.symm hf
      · rcases List.mem_cons.1 he with rfl | he
        · exact absurd hkey hf
        · exact .inr ⟨e, he, hkey⟩

/-- The result of an item is one that was given for it. -/
private theorem member_resultsValue {items : List String} {results : List Bool} {item : String} (hitem : item ∈ items)
    (hlen : results.length = items.length) :
    ∃ b, (item, b) ∈ items.zip results ∧ (resultsValue items results).member item = some (.bool b) := by
  have hkeys : ∃ e ∈ items.zip results, e.1 = item := by
    have hfst : (items.zip results).map Prod.fst = items := List.map_fst_zip (Nat.le_of_eq hlen.symm)
    exact List.mem_map.1 (hfst.symm ▸ hitem)
  obtain ⟨e, he, hkey⟩ : ∃ e ∈ (items.zip results).foldl setResult [], e.1 = item := exists_setResult (.inr hkeys)
  let members := (((items.zip results).foldl setResult []).insertionSort fun a b => a.1 ≤ b.1).map fun e =>
    (e.1, JsonValue.bool e.2)
  have hmembers : ∀ m ∈ members, ∃ b, m = (m.1, .bool b) ∧ (m.1, b) ∈ items.zip results := by
    intro m hm
    obtain ⟨e', he', rfl⟩ := List.mem_map.1 hm
    have hzip := mem_of_mem_setResult ((List.perm_insertionSort _ _).mem_iff.1 he')
    exact ⟨e'.2, rfl, hzip.resolve_left List.not_mem_nil⟩
  have hfind : (members.find? fun m => m.1 = item).isSome := by
    rw [List.find?_isSome]
    refine ⟨(e.1, .bool e.2), List.mem_map.2 ⟨e, (List.perm_insertionSort _ _).mem_iff.2 he, rfl⟩, ?_⟩
    exact decide_eq_true hkey
  obtain ⟨m, hm⟩ := Option.isSome_iff_exists.1 hfind
  have hname : m.1 = item := by simpa using List.find?_some hm
  obtain ⟨b, hmb, hzip⟩ := hmembers m (List.mem_of_find?_eq_some hm)
  refine ⟨b, hname ▸ hzip, ?_⟩
  show (members.find? fun m => m.1 = item).map Prod.snd = _
  rw [hm, hmb]
  rfl

private theorem wellFormed_resultsValue (items : List String) (results : List Bool) :
    WellFormed (resultsValue items results) := by
  refine .object fun m hm => ?_
  obtain ⟨e, -, rfl⟩ := List.mem_map.1 hm
  exact .bool e.2

private theorem finds_containsReply {item : String} {resp : ContainsResponse}
    (hdone : Follows (DBFServer.contains (utf8 item)) trace (.done resp))
    (htrue : ∀ b, ⟨.contains (utf8 item), b⟩ ∈ trace → b = true)
    (hstatus : (withCors (containsReply (.ok resp))).status = 200) :
    readReply (withCors (containsReply (.ok resp))) ["data", "exists"] = some (.bool true) := by
  by_cases herror : resp.error = ""
  · have hfound := htrue _ (DBFServer.mem_of_contains hdone herror)
    simp only [containsReply, herror, ne_eq, not_true_eq_false, if_false, hfound]
    rw [readReply_sendSuccess (.object (by simpa using .bool true))]
    rfl
  · simp only [containsReply, ne_eq, herror, not_false_eq_true, if_true] at hstatus
    cases hstatus

private theorem finds_batchContainsReply {items : List String} {resp : BatchContainsResponse}
    (hdone : Follows (DBFServer.batchContains (items.map utf8)) trace (.done resp)) {item : String}
    (hitem : item ∈ items) (hx : utf8 item ≠ []) (htrue : ∀ b, ⟨.contains (utf8 item), b⟩ ∈ trace → b = true)
    (hstatus : (withCors (batchContainsReply items (.ok resp))).status = 200) :
    readReply (withCors (batchContainsReply items (.ok resp))) ["data", "results", item] = some (.bool true) := by
  by_cases herror : resp.error = ""
  · obtain ⟨hlen, hmem⟩ := DBFServer.mem_of_batchContains hdone herror
    rw [List.length_map] at hlen
    obtain ⟨b, hzip, hmember⟩ := member_resultsValue hitem hlen
    have hb : b = true := by
      refine htrue b (hmem (utf8 item, b) ?_ hx)
      rw [List.zip_map_left]
      exact List.mem_map.2 ⟨(item, b), hzip, rfl⟩
    simp only [batchContainsReply, herror, ne_eq, not_true_eq_false, if_false]
    rw [readReply_sendSuccess (.object (by simpa using wellFormed_resultsValue items resp.results)), ← hb]
    show (resultsValue items resp.results).member item >>= pure = _
    rw [hmember]
    rfl
  · simp only [batchContainsReply, ne_eq, herror, not_false_eq_true, if_true] at hstatus
    cases hstatus

/-- What a reply says about an item is what the node said. -/
theorem finds_resume (h : serve elsewhere r = .call q resume) (hdone : Follows (DBFServer.handle q) trace (.done a))
    {x : Bytes} (hx : x ≠ []) (htrue : ∀ b, ⟨.contains x, b⟩ ∈ trace → b = true) :
    Finds elsewhere r (resume (.ok a)) x := by
  constructor
  · intro hstatus hasked
    rw [asked_of_serve h] at hasked
    cases passes_of_serve h with
    | contains item =>
      cases hasked
      exact finds_containsReply hdone htrue hstatus
    | write | batchAdd | batchContains | status | cluster => cases hasked
  · intro hstatus xs hasked items hread item hitem hutf8
    rw [asked_of_serve h] at hasked
    cases passes_of_serve h with
    | batchContains hitems =>
      cases hitems.symm.trans hread
      subst hutf8
      exact finds_batchContainsReply hdone hitem hx htrue hstatus
    | write | contains | batchAdd | status | cluster => cases hasked

theorem finds_error (h : serve elsewhere r = .call q resume) (err : String) (x : Bytes) :
    Finds elsewhere r (resume (.error err)) x := by
  have hstatus : (resume (.error err)).status ≠ 200 := by
    rw [status_error h err]
    decide
  exact ⟨fun h => absurd h hstatus, fun h => absurd h hstatus⟩

theorem finds_reply {resp : HttpResponse} (h : serve elsewhere r = .reply resp) (x : Bytes) :
    Finds elsewhere r resp x := by
  have hasked : asked elsewhere r = none := by
    unfold asked
    rw [h]
  constructor
  · intro _ hcontains
    rw [hasked] at hcontains
    cases hcontains
  · intro _ xs hbatch
    rw [hasked] at hbatch
    cases hbatch

end Gateway

end DistributedBloomFilter
