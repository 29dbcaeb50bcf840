import ChatBackend.Ids
import ChatBackend.Lib.JsonItems
import ChatBackend.Lib.JsonLines

/-! The log: every record one line of JSON. -/

namespace ChatBackend

open Lib

namespace Log

inductive Level where
  | debug | info | warning | error | critical

/-- `record.levelname.lower()`. -/
def Level.name : Level → String
  | .debug => "debug"
  | .info => "info"
  | .warning => "warning"
  | .error => "error"
  | .critical => "critical"

/-- `attributes` is the record's `__dict__`; a value that is no JSON is there as its `str`. -/
structure LogRecord where
  created : Timestamp
  level : Level
  name : String
  message : Text
  attributes : List (String × Json)
  excText : Option Text
  apart : (attributes.map Prod.fst).Nodup

/-- `_RESERVED`. -/
def reserved : List String := [
  "name", "msg", "args", "levelname", "levelno", "pathname", "filename", "module", "exc_info",
  "exc_text", "stack_info", "lineno", "funcName", "created", "msecs", "relativeCreated", "thread",
  "threadName", "processName", "process", "taskName", "message", "asctime"]

def isExtra (key : String) : Bool := !reserved.contains key && !("_".toList).isPrefixOf key.toList

/-- `isoformat(timespec="milliseconds")`. -/
def isoMilliseconds (t : Timestamp) : Text :=
  let seconds := t.val / 1000000
  (ordToText (seconds / 86400) ++ 'T' :: numeral 10 2 (seconds % 86400 / 3600) ++
    ':' :: numeral 10 2 (seconds % 3600 / 60) ++ ':' :: numeral 10 2 (seconds % 60) ++
    '.' :: numeral 10 3 (t.val % 1000000 / 1000) ++ "+00:00".toList).map codePoint

abbrev Payload := List (Text × Json)

def setKey (p : Payload) (key : String) (value : Json) : Payload := setItem p (text key) value

def setExtra (p : Payload) (a : String × Json) : Payload := if isExtra a.1 then setKey p a.1 a.2 else p

def head (r : LogRecord) : Payload := [
  (text "ts", .str (isoMilliseconds r.created)),
  (text "level", .str (text r.level.name)),
  (text "logger", .str (text r.name)),
  (text "msg", .str r.message)]

def setText (p : Payload) (key : String) : Option Text → Payload
  | some t => setKey p key (.str t)
  | none => p

/-- `JsonFormatter.format`, up to `json.dumps`. An empty request id is left out. -/
def payload (r : LogRecord) (requestId : Option Text) : Payload :=
  let named := setText (head r) "request_id" (requestId.filter (fun t => t ≠ []))
  setText (r.attributes.foldl setExtra named) "exc" r.excText

def line (r : LogRecord) (requestId : Option Text) : Text := dumps (.obj (payload r requestId))

/-- `StreamHandler.terminator`. -/
def terminator : CodePoint := codePoint '\n'

/-- `StreamHandler.emit`. A strict UTF-8 stream refuses a text with a surrogate as a whole, and the handler
lets the record go. -/
def emit (r : LogRecord) (requestId : Option Text) : Text :=
  let message := line r requestId ++ [terminator]
  if encodable message then message else []

/-- What comes of some records, each in its own request's context. -/
def stream (records : List (LogRecord × Option Text)) : Text := records.flatMap (fun e => emit e.1 e.2)

/-! Keys and values of a payload. -/

theorem getItem_setText_other {key j : String} (ne : j ≠ key) (p : Payload) (value : Option Text) :
    getItem (setText p key value) j = getItem p j := by
  cases value with
  | none => rfl
  | some t => rw [setText, setKey, getItem_setItem, if_neg ne]

theorem getItem_setExtra_other {a : String × Json} {j : String} (other : isExtra a.1 = true → a.1 ≠ j)
    (p : Payload) : getItem (setExtra p a) j = getItem p j := by
  unfold setExtra
  split
  · rename_i extra
    rw [setKey, getItem_setItem, if_neg (other extra).symm]
  · rfl

/-- What no extra names stays. -/
theorem getItem_extras_other {as : List (String × Json)} {j : String}
    (other : ∀ a ∈ as, isExtra a.1 = true → a.1 ≠ j) (p : Payload) :
    getItem (as.foldl setExtra p) j = getItem p j := by
  induction as generalizing p with
  | nil => rfl
  | cons a as ih =>
    rw [List.foldl_cons, ih fun b mem => other b (List.mem_cons_of_mem a mem)]
    exact getItem_setExtra_other (other a List.mem_cons_self) p

theorem getItem_extra {as : List (String × Json)} (apart : (as.map Prod.fst).Nodup) {a : String × Json}
    (mem : a ∈ as) (extra : isExtra a.1 = true) (p : Payload) :
    getItem (as.foldl setExtra p) a.1 = a.2 := by
  induction as generalizing p with
  | nil => cases mem
  | cons b as ih =>
    obtain ⟨fresh, apart⟩ := List.nodup_cons.mp apart
    rw [List.foldl_cons]
    rcases List.mem_cons.mp mem with rfl | later
    · have others : ∀ b ∈ as, isExtra b.1 = true → b.1 ≠ a.1 := fun b inside _ same =>
        fresh (List.mem_map.mpr ⟨b, inside, same⟩)
      rw [getItem_extras_other others, setExtra, if_pos extra, setKey, getItem_setItem, if_pos rfl]
    · exact ih apart later _

section Payload

variable {r : LogRecord} {requestId : Option Text} {j : String}

/-- An extra of the record that names `j`. -/
def Names (r : LogRecord) (j : String) : Prop := ∃ a ∈ r.attributes, isExtra a.1 = true ∧ a.1 = j

theorem payload_head (free : ¬ Names r j) (id : j ≠ "request_id") (exc : j ≠ "exc") :
    getItem (payload r requestId) j = getItem (head r) j := by
  have others : ∀ a ∈ r.attributes, isExtra a.1 = true → a.1 ≠ j := fun a mem extra same =>
    free ⟨a, mem, extra, same⟩
  rw [payload, getItem_setText_other exc, getItem_extras_other others, getItem_setText_other id]

theorem payload_extra {a : String × Json} (mem : a ∈ r.attributes) (extra : isExtra a.1 = true)
    (exc : r.excText = none ∨ a.1 ≠ "exc") : getItem (payload r requestId) a.1 = a.2 := by
  have kept := getItem_extra r.apart mem extra
    (setText (head r) "request_id" (requestId.filter (fun t => t ≠ [])))
  rw [payload]
  rcases exc with none | ne
  · rw [none]
    exact kept
  · rw [getItem_setText_other ne]
    exact kept

theorem payload_exc {exc : Text} (some : r.excText = .some exc) :
    getItem (payload r requestId) "exc" = .str exc := by
  rw [payload, some, setText, setKey, getItem_setItem, if_pos rfl]

theorem payload_requestId {id : Text} (named : id ≠ []) (free : ¬ Names r "request_id") :
    getItem (payload r (some id)) "request_id" = .str id := by
  have others : ∀ a ∈ r.attributes, isExtra a.1 = true → a.1 ≠ "request_id" := fun a mem extra same =>
    free ⟨a, mem, extra, same⟩
  have kept : (some id).filter (fun t => t ≠ []) = some id := by
    rw [Option.filter_some, if_pos (by simpa using named)]
  rw [payload, getItem_setText_other (by decide), getItem_extras_other others, kept, setText, setKey,
    getItem_setItem, if_pos rfl]

end Payload

/-! All members of a payload. -/

section Members

variable {P : Text × Json → Prop} {r : LogRecord} {requestId : Option Text}

theorem mem_setText {p : Payload} {key : String} {value : Option Text} (inside : ∀ m ∈ p, P m)
    (new : ∀ t ∈ value, P (text key, .str t)) : ∀ m ∈ setText p key value, P m := by
  intro m mem
  cases value with
  | none => exact inside m mem
  | some t =>
    rcases setItem_mem mem with rfl | old
    · exact new t rfl
    · exact inside m old

theorem mem_extras {as : List (String × Json)}
    (extras : ∀ a ∈ as, isExtra a.1 = true → P (text a.1, a.2)) {p : Payload} (inside : ∀ m ∈ p, P m) :
    ∀ m ∈ as.foldl setExtra p, P m := by
  induction as generalizing p with
  | nil => exact inside
  | cons a as ih =>
    refine ih (fun b mem => extras b (List.mem_cons_of_mem a mem)) fun m mem => ?_
    unfold setExtra at mem
    split at mem
    · rename_i extra
      rcases setItem_mem mem with rfl | old
      · exact extras a List.mem_cons_self extra
      · exact inside m old
    · exact inside m mem

theorem mem_payload (base : ∀ m ∈ head r, P m) (id : ∀ t ∈ requestId, P (text "request_id", .str t))
    (extras : ∀ a ∈ r.attributes, isExtra a.1 = true → P (text a.1, a.2))
    (exc : ∀ t ∈ r.excText, P (text "exc", .str t)) : ∀ m ∈ payload r requestId, P m :=
  mem_setText (mem_extras extras (mem_setText base fun t mem =>
    id t (Option.mem_filter_iff.mp mem).1)) exc

end Members

theorem setText_nodup {p : Payload} (apart : (p.map Prod.fst).Nodup) (key : String)
    (value : Option Text) : ((setText p key value).map Prod.fst).Nodup := by
  cases value with
  | none => exact apart
  | some t => exact setItem_nodup apart (text key) (.str t)

theorem extras_nodup (as : List (String × Json)) {p : Payload} (apart : (p.map Prod.fst).Nodup) :
    ((as.foldl setExtra p).map Prod.fst).Nodup := by
  induction as generalizing p with
  | nil => exact apart
  | cons a as ih =>
    refine ih ?_
    unfold setExtra
    split
    · exact setItem_nodup apart (text a.1) a.2
    · exact apart

theorem payload_nodup (r : LogRecord) (requestId : Option Text) :
    ((payload r requestId).map Prod.fst).Nodup := by
  have base : ((head r).map Prod.fst).Nodup := by
    show ([text "ts", text "level", text "logger", text "msg"] : List Text).Nodup
    decide
  exact setText_nodup (extras_nodup r.attributes (setText_nodup base "request_id" _)) "exc" r.excText

/-! Writing and reading a line. -/

/-- No surrogate is in what the record says. -/
structure Scalar (r : LogRecord) (requestId : Option Text) : Prop where
  message : encodable r.message = true
  requestId : ∀ id ∈ requestId, encodable id = true
  extras : ∀ a ∈ r.attributes, isExtra a.1 = true → a.2.isScalar = true
  exc : ∀ exc ∈ r.excText, encodable exc = true

theorem payload_scalar {r : LogRecord} {requestId : Option Text} (scalar : Scalar r requestId) :
    (Json.obj (payload r requestId)).isScalar = true := by
  refine everyMember_of (mem_payload ?_ (fun t mem => ?_) (fun a mem extra => ?_) fun t mem => ?_)
  · simp only [head, List.forall_mem_cons]
    exact ⟨⟨encodable_text _, encodable_chars _⟩, ⟨encodable_text _, encodable_text _⟩,
      ⟨encodable_text _, encodable_text _⟩, ⟨encodable_text _, scalar.message⟩, List.forall_mem_nil _⟩
  · exact ⟨encodable_text _, scalar.requestId t mem⟩
  · exact ⟨encodable_text _, scalar.extras a mem extra⟩
  · exact ⟨encodable_text _, scalar.exc t mem⟩

theorem emit_eq (r : LogRecord) (requestId : Option Text) :
    emit r requestId =
      if (Json.obj (payload r requestId)).isScalar then line r requestId ++ [terminator] else [] := by
  have ending : encodable [terminator] = true := by decide
  rw [emit, encodable_append, ending, Bool.and_true, line, dumps_encodable]

theorem loads_line {toFloat : Text → PyFloat} {n : Nat} {r : LogRecord}
    (values : ∀ a ∈ r.attributes, isExtra a.1 = true → Readable escape toFloat n a.2)
    (requestId : Option Text) :
    loads toFloat (n + 1) (line r requestId) = .ok (.obj (payload r requestId)) := by
  have each : ∀ m ∈ payload r requestId, Readable escape toFloat n m.2 := by
    refine mem_payload ?_ (fun t _ => .str n t (escape_legible t)) values
      fun t _ => .str n t (escape_legible t)
    simp only [head, List.forall_mem_cons]
    exact ⟨.str n _ (escape_legible _), .str n _ (escape_legible _), .str n _ (escape_legible _),
      .str n _ (escape_legible _), fun m mem => absurd mem List.not_mem_nil⟩
  have readable : Readable escape toFloat (n + 1) (.obj (payload r requestId)) :=
    .obj n _ (payload_nodup r requestId) (fun m _ => escape_legible m.1) each
  rw [line, ← dumpsBy_escape]
  exact loads_dumpsBy escape_escapes readable

theorem line_whole (r : LogRecord) (requestId : Option Text) : terminator ∉ line r requestId := by
  intro mem
  have low := List.all_eq_true.mp (dumps_printable (.obj (payload r requestId))) terminator mem
  exact absurd (of_decide_eq_true low) (by decide)

/-- What a line tells of its record. Of the fields of the formatter, extras of their names come first. -/
structure Tells (r : LogRecord) (requestId : Option Text) (p : Payload) : Prop where
  head : ∀ j ∈ ["ts", "level", "logger", "msg"], ¬ Names r j → getItem p j = getItem (head r) j
  requestId : ∀ id ∈ requestId, id ≠ [] → ¬ Names r "request_id" → getItem p "request_id" = .str id
  extra : ∀ a ∈ r.attributes, isExtra a.1 = true → r.excText = none ∨ a.1 ≠ "exc" →
    getItem p a.1 = a.2
  exc : ∀ exc ∈ r.excText, getItem p "exc" = .str exc

end Log

/-- The records whose payload has no surrogate. -/
def Log.written (records : List (Log.LogRecord × Option Text)) : List (Log.LogRecord × Option Text) :=
  records.filter (fun e => (Json.obj (Log.payload e.1 e.2)).isScalar)

theorem Log.stream_eq (records : List (Log.LogRecord × Option Text)) :
    Log.stream records = ((Log.written records).map (fun e => Log.line e.1 e.2)).flatMap
      (fun line => line ++ [Log.terminator]) := by
  induction records with
  | nil => rfl
  | cons e records ih =>
    rw [Log.stream] at ih ⊢
    rw [List.flatMap_cons, ih, Log.emit_eq, Log.written, Log.written, List.filter_cons]
    split
    · rw [List.map_cons, List.flatMap_cons]
    · rw [List.nil_append]

/-- Whatever the records hold, the log comes apart into one line for each record that has no surrogate,
each line reads back as what it tells of its record, and nothing is left of the other records. -/
theorem log_reads_back (toFloat : Text → PyFloat) (n : Nat)
    (records : List (Log.LogRecord × Option Text))
    (values : ∀ e ∈ records, ∀ a ∈ e.1.attributes, Log.isExtra a.1 = true →
      Readable escape toFloat n a.2) :
    (Log.stream records).splitOn Log.terminator =
      (Log.written records).map (fun e => Log.line e.1 e.2) ++ [[]] ∧
    (∀ e ∈ records, Log.Scalar e.1 e.2 → e ∈ Log.written records) ∧
    ∀ e ∈ records, ∃ p, loads toFloat (n + 1) (Log.line e.1 e.2) = .ok (.obj p) ∧
      Log.Tells e.1 e.2 p := by
  refine ⟨?_, fun e mem scalar => List.mem_filter.mpr ⟨mem, Log.payload_scalar scalar⟩, ?_⟩
  · have whole : ∀ line ∈ (Log.written records).map (fun e => Log.line e.1 e.2),
        Log.terminator ∉ line := by
      rintro line mem
      obtain ⟨e, -, rfl⟩ := List.mem_map.mp mem
      exact Log.line_whole e.1 e.2
    rw [Log.stream_eq, splitOn_lines whole]
  · intro e mem
    refine ⟨Log.payload e.1 e.2, Log.loads_line (values e mem) e.2, ?_⟩
    exact {
      head := fun j base free => by
        refine Log.payload_head free ?_ ?_
        · rintro rfl
          exact absurd base (by decide)
        · rintro rfl
          exact absurd base (by decide)
      requestId := fun id some named free => by
        rw [Option.mem_def.mp some]
        exact Log.payload_requestId named free
      extra := fun a inside extra exc => Log.payload_extra inside extra exc
      exc := fun exc some => Log.payload_exc some }

/-- A path that tries to write a record of its own. -/
def hostileRecord : Log.LogRecord where
  created := 0
  level := .info
  name := "app.access"
  message := text "request"
  attributes := [("levelno", .int 20), ("path", .str (text "/x\n\"level\": \"error\"")),
    ("status", .int 404)]
  excText := none
  apart := by decide

/-- A message that cannot be written. -/
def halfRecord : Log.LogRecord := { hostileRecord with message := [0xD800] }

theorem hostile_reads_back :
    (Log.stream [(hostileRecord, some (text "abc")), (halfRecord, none)]).splitOn Log.terminator =
      [Log.line hostileRecord (some (text "abc")), []] ∧
    ∃ p, loads (fun _ => .nan) 1 (Log.line hostileRecord (some (text "abc"))) = .ok (.obj p) ∧
      Log.Tells hostileRecord (some (text "abc")) p := by
  have values : ∀ a ∈ hostileRecord.attributes, Log.isExtra a.1 = true →
      Readable escape (fun _ => .nan) 0 a.2 := by
    simp only [List.forall_mem_cons, hostileRecord]
    exact ⟨fun _ => .int 0 20 (by decide +kernel), fun _ => .str 0 _ (escape_legible _),
      fun _ => .int 0 404 (by decide +kernel), fun a mem => absurd mem List.not_mem_nil⟩
  obtain ⟨apart, -, back⟩ := log_reads_back (fun _ => .nan) 0
    [(hostileRecord, some (text "abc")), (halfRecord, none)] (by
      simp only [List.forall_mem_cons]
      exact ⟨values, values, fun e mem => absurd mem List.not_mem_nil⟩)
  have one : Log.written [(hostileRecord, some (text "abc")), (halfRecord, none)] =
      [(hostileRecord, some (text "abc"))] := rfl
  rw [one] at apart
  exact ⟨apart, back (hostileRecord, some (text "abc")) List.mem_cons_self⟩

end ChatBackend
