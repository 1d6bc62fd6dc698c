import Lodestar.Lib.SortedMap
import Lodestar.Db.Schema
/-!
# Repository — the controller of the store and the repositories over it

`LevelDbController` is the ordered store of bytes.  A `Repository` translates typed ids and values to bytes under the key
prefix of its bucket.  Its queries and updates are functions of the whole store; the lemmas at the end say that they look
at the keys of the bucket alone and change no others, whatever the range bounds.
-/
namespace Lodestar.Db

open Lib SortedMap
open scoped Lib.BigEndian

/-- What the database layer throws: an error of the value's type, or one of its own. -/
inductive DbError
  | ssz (message : String)
  | error (message : String)
deriving DecidableEq, Repr

abbrev Store := SortedMap Buffer Buffer

def settled (db : Store) : Except DbError Store → Store
  | .ok db' => db'
  | .error _ => db

structure FilterOptions (κ : Type) where
  gt : Option κ := none
  gte : Option κ := none
  lt : Option κ := none
  lte : Option κ := none
  reverse : Bool := false
  limit : Option Nat := none
deriving DecidableEq, Repr

namespace LevelDbController

def get (db : Store) (key : Buffer) : Option Buffer := db.get? key

section

variable (db : Store)

def put (key value : Buffer) : Store := db.insert key value

def delete (key : Buffer) : Store := db.erase key

def batchPut (items : List (Buffer × Buffer)) : Store :=
  items.foldl (fun db item => put db item.1 item.2) db

def batchDelete (keys : List Buffer) : Store := keys.foldl delete db

def inRange (opts : FilterOptions Buffer) (key : Buffer) : Bool :=
  opts.gt.all (fun bound => decide (bound < key)) && opts.gte.all (fun bound => decide (bound ≤ key)) &&
    opts.lt.all (fun bound => decide (key < bound)) && opts.lte.all (fun bound => decide (key ≤ bound))

def entries (db : Store) (opts : FilterOptions Buffer) : List (Buffer × Buffer) :=
  let rows := db.entries.filter (fun e => inRange opts e.1)
  let rows := if opts.reverse then rows.reverse else rows
  match opts.limit with
  | none => rows
  | some limit => rows.take limit

def keys (opts : FilterOptions Buffer) : List Buffer := (entries db opts).map (·.1)

def values (opts : FilterOptions Buffer) : List Buffer := (entries db opts).map (·.2)

end

end LevelDbController

/-- `Number(n)`: the nearest number of 53 significant bits, the even one when two are as near. -/
def toNumber (n : Nat) : Nat :=
  let shift := n.log2 - 52
  let unit := 2 ^ shift
  let half := unit / 2
  let up := decide (half < n % unit) || (decide (0 < shift) && n % unit == half && n / unit % 2 == 1)
  (n / unit + if up then 1 else 0) * unit

def BUCKET_LENGTH : Nat := 1

def bytesKey (key : Buffer) : Id := .bytes (key.drop BUCKET_LENGTH)

/-- The override of `decodeKey` where ids are numbers: `bytesToInt` of the bytes behind the bucket. -/
def numberKey (key : Buffer) : Id := .number (toNumber (BigEndian.decode (key.drop BUCKET_LENGTH)))

structure Repository (V : Type) where
  bucket : Bucket
  encodeValue : V → Buffer
  decodeValue : Buffer → Except DbError V
  decodeKey : Buffer → Id := bytesKey
  getId : V → Except DbError Id

namespace Repository

variable {V : Type} (repository : Repository V)

def encodeKey (id : Id) : Buffer := Db.encodeKey repository.bucket.value id

/-! ## Reads -/

section

variable (db : Store)

def getBinary (id : Id) : Option Buffer := LevelDbController.get db (repository.encodeKey id)

def get (db : Store) (id : Id) : Except DbError (Option V) :=
  match repository.getBinary db id with
  | none => .ok none
  | some value => (repository.decodeValue value).map some

def has (id : Id) : Except DbError Bool := (repository.get db id).map Option.isSome

/-- `bound || bound === 0`: the empty text and the zero bigint count as no bound. -/
def given : Option Id → Option Id
  | some (.string "") | some (.bigint 0) => none
  | bound => bound

def dbFilterOptions (opts : FilterOptions Id) : FilterOptions Buffer :=
  let upper : FilterOptions Buffer :=
    match given opts.lt, given opts.lte with
    | some lt, _ => { lt := some (repository.encodeKey lt) }
    | none, some lte => { lte := some (repository.encodeKey lte) }
    | none, none => { lt := some (Db.encodeKey (repository.bucket.value + 1) (.bytes [])) }
  match given opts.gt, given opts.gte with
  | some gt, _ => { upper with gt := some (repository.encodeKey gt), reverse := opts.reverse, limit := opts.limit }
  | none, some gte => { upper with gte := some (repository.encodeKey gte), reverse := opts.reverse, limit := opts.limit }
  | none, none =>
    { upper with gte := some (repository.encodeKey (.bytes [])), reverse := opts.reverse, limit := opts.limit }

def keys (db : Store) (opts : FilterOptions Id) : List Id :=
  (LevelDbController.keys db (repository.dbFilterOptions opts)).map repository.decodeKey

def values (db : Store) (opts : FilterOptions Id) : Except DbError (List V) :=
  (LevelDbController.values db (repository.dbFilterOptions opts)).mapM repository.decodeValue

def valuesStream (opts : FilterOptions Id) : List (Except DbError V) :=
  (LevelDbController.values db (repository.dbFilterOptions opts)).map repository.decodeValue

def entries (db : Store) (opts : FilterOptions Id) : Except DbError (List (Id × V)) :=
  (LevelDbController.entries db (repository.dbFilterOptions opts)).mapM fun row =>
    (repository.decodeValue row.2).map fun value => (repository.decodeKey row.1, value)

def firstKey : Option Id := (repository.keys db { limit := some 1 }).head?

def lastKey : Option Id := (repository.keys db { limit := some 1, reverse := true }).head?

def firstValue : Except DbError (Option V) := (repository.values db { limit := some 1 }).map List.head?

def lastValue : Except DbError (Option V) :=
  (repository.values db { limit := some 1, reverse := true }).map List.head?

def firstEntry : Except DbError (Option (Id × V)) :=
  (repository.entries db { limit := some 1 }).map List.head?

def lastEntry : Except DbError (Option (Id × V)) :=
  (repository.entries db { limit := some 1, reverse := true }).map List.head?

/-! ## Writes -/

def putBinary (id : Id) (value : Buffer) : Store :=
  LevelDbController.put db (repository.encodeKey id) value

def put (db : Store) (id : Id) (value : V) : Store := repository.putBinary db id (repository.encodeValue value)

def delete (db : Store) (id : Id) : Store := LevelDbController.delete db (repository.encodeKey id)

def batchPutBinary (items : List (Id × Buffer)) : Store :=
  LevelDbController.batchPut db (items.map fun item => (repository.encodeKey item.1, item.2))

def batchPut (db : Store) (items : List (Id × V)) : Store :=
  repository.batchPutBinary db (items.map fun item => (item.1, repository.encodeValue item.2))

def batchDelete (db : Store) (ids : List Id) : Store :=
  LevelDbController.batchDelete db (ids.map repository.encodeKey)

/-- `getId` of every value, before anything is written. -/
def getIds (values : List V) : Except DbError (List Id) := values.mapM repository.getId

/-! ## The whole interface -/

inductive Query
  | get (id : Id)
  | getBinary (id : Id)
  | has (id : Id)
  | keys (opts : FilterOptions Id)
  | values (opts : FilterOptions Id)
  | entries (opts : FilterOptions Id)
  | firstKey
  | lastKey
  | firstValue
  | lastValue
  | firstEntry
  | lastEntry

inductive Answer (V : Type)
  | value (value : Option V)
  | binary (value : Option Buffer)
  | has (found : Bool)
  | key (id : Option Id)
  | keys (ids : List Id)
  | values (values : List V)
  | entry (entry : Option (Id × V))
  | entries (entries : List (Id × V))
deriving DecidableEq

def answer : Query → Except DbError (Answer V)
  | .get id => (repository.get db id).map .value
  | .getBinary id => .ok (.binary (repository.getBinary db id))
  | .has id => (repository.has db id).map .has
  | .keys opts => .ok (.keys (repository.keys db opts))
  | .values opts => (repository.values db opts).map .values
  | .entries opts => (repository.entries db opts).map .entries
  | .firstKey => .ok (.key (repository.firstKey db))
  | .lastKey => .ok (.key (repository.lastKey db))
  | .firstValue => (repository.firstValue db).map .value
  | .lastValue => (repository.lastValue db).map .value
  | .firstEntry => (repository.firstEntry db).map .entry
  | .lastEntry => (repository.lastEntry db).map .entry

inductive Write (V : Type)
  | put (id : Id) (value : V)
  | putBinary (id : Id) (value : Buffer)
  | delete (id : Id)
  | add (value : V)
  | remove (value : V)
  | batchPut (items : List (Id × V))
  | batchPutBinary (items : List (Id × Buffer))
  | batchDelete (ids : List Id)
  | batchAdd (values : List V)
  | batchRemove (values : List V)

def write : Write V → Except DbError Store
  | .put id value => .ok (repository.put db id value)
  | .putBinary id value => .ok (repository.putBinary db id value)
  | .delete id => .ok (repository.delete db id)
  | .add value => (repository.getId value).map fun id => repository.put db id value
  | .remove value => (repository.getId value).map fun id => repository.delete db id
  | .batchPut items => .ok (repository.batchPut db items)
  | .batchPutBinary items => .ok (repository.batchPutBinary db items)
  | .batchDelete ids => .ok (repository.batchDelete db ids)
  | .batchAdd values => (repository.getIds values).map fun ids => repository.batchPut db (ids.zip values)
  | .batchRemove values => (repository.getIds values).map fun ids => repository.batchDelete db ids

end

/-! ## The keys a repository touches -/

variable {repository}

theorem dbFilterOptions_lower (opts : FilterOptions Id) :
    ∃ id, (repository.dbFilterOptions opts).gt = some (repository.encodeKey id) ∨
      (repository.dbFilterOptions opts).gte = some (repository.encodeKey id) := by
  unfold dbFilterOptions
  cases given opts.gt with
  | some gt => exact ⟨gt, .inl rfl⟩
  | none =>
    cases given opts.gte with
    | some gte => exact ⟨gte, .inr rfl⟩
    | none => exact ⟨.bytes [], .inr rfl⟩

theorem dbFilterOptions_upper (opts : FilterOptions Id) :
    (repository.dbFilterOptions opts).lt = some (Db.encodeKey (repository.bucket.value + 1) (.bytes [])) ∨
      ∃ id, (repository.dbFilterOptions opts).lt = some (repository.encodeKey id) ∨
        (repository.dbFilterOptions opts).lte = some (repository.encodeKey id) := by
  unfold dbFilterOptions
  generalize hupper : (match given opts.lt, given opts.lte with
    | some lt, _ => ({ lt := some (repository.encodeKey lt) } : FilterOptions Buffer)
    | none, some lte => { lte := some (repository.encodeKey lte) }
    | none, none => { lt := some (Db.encodeKey (repository.bucket.value + 1) (.bytes [])) }) = upper
  have hbound : upper.lt = some (Db.encodeKey (repository.bucket.value + 1) (.bytes [])) ∨
      ∃ id, upper.lt = some (repository.encodeKey id) ∨ upper.lte = some (repository.encodeKey id) := by
    rw [← hupper]
    cases given opts.lt with
    | some lt => exact .inr ⟨lt, .inl rfl⟩
    | none =>
      cases given opts.lte with
      | some lte => exact .inr ⟨lte, .inr rfl⟩
      | none => exact .inl rfl
  split <;> exact hbound

theorem inBucket_of_inRange {opts : FilterOptions Id} {key : Buffer}
    (h : LevelDbController.inRange (repository.dbFilterOptions opts) key = true) :
    InBucket repository.bucket.value key := by
  unfold LevelDbController.inRange at h
  simp only [Bool.and_eq_true] at h
  obtain ⟨⟨⟨hgt, hgte⟩, hlt⟩, hlte⟩ := h
  refine inBucket_of_bounds ?_ ?_
  · obtain ⟨id, hid | hid⟩ := repository.dbFilterOptions_lower opts
    · rw [hid] at hgt
      exact ⟨id, (of_decide_eq_true hgt).le⟩
    · rw [hid] at hgte
      exact ⟨id, of_decide_eq_true hgte⟩
  · rcases repository.dbFilterOptions_upper opts with hnext | ⟨id, hid | hid⟩
    · rw [hnext] at hlt
      exact .inl (of_decide_eq_true hlt)
    · rw [hid] at hlt
      exact .inr ⟨id, (of_decide_eq_true hlt).le⟩
    · rw [hid] at hlte
      exact .inr ⟨id, of_decide_eq_true hlte⟩

variable {p : Buffer → Prop}

theorem writesOnly_settled_map {α : Type} (choice : Store → Except DbError α) {update : α → Store → Store}
    (h : ∀ a, WritesOnly p (update a)) :
    WritesOnly p (fun db => settled db ((choice db).map fun a => update a db)) := by
  intro db key hkey
  show (settled db ((choice db).map fun a => update a db)).get? key = db.get? key
  cases choice db with
  | error e => rfl
  | ok a => exact h a db key hkey

theorem writesOnly_settled_then {first : Store → Except DbError Store} {next : Store → Store}
    (hfirst : WritesOnly p (fun db => settled db (first db))) (hnext : WritesOnly p next) :
    WritesOnly p (fun db => settled db ((first db).map next)) := by
  intro db key hkey
  have h : (settled db (first db)).get? key = db.get? key := hfirst db key hkey
  show (settled db ((first db).map next)).get? key = db.get? key
  cases hres : first db with
  | error e => rfl
  | ok db' =>
    rw [hres] at h
    exact (hnext db' key hkey).trans h

section Footprint

variable {p : Buffer → Prop} (hp : ∀ key, InBucket repository.bucket.value key → p key)

include hp

theorem readsOnly_getBinary (id : Id) : ReadsOnly p (fun db => repository.getBinary db id) :=
  readsOnly_get? (hp _ (inBucket_encodeKey _ id))

theorem readsOnly_get (id : Id) : ReadsOnly p (fun db => repository.get db id) :=
  (readsOnly_getBinary hp id).of fun db db' h => by simp only [get, h]

section

variable (opts : FilterOptions Id)

theorem readsOnly_rows : ReadsOnly p (fun db => LevelDbController.entries db (repository.dbFilterOptions opts)) :=
  have hrows := readsOnly_filter (r := LevelDbController.inRange (repository.dbFilterOptions opts))
    fun key hkey => hp key (inBucket_of_inRange hkey)
  hrows.of fun db db' h => by simp only [LevelDbController.entries, h]

theorem readsOnly_keys : ReadsOnly p (fun db => repository.keys db opts) :=
  (readsOnly_rows hp opts).of fun db db' h => by simp only [keys, LevelDbController.keys, h]

theorem readsOnly_values : ReadsOnly p (fun db => repository.values db opts) :=
  (readsOnly_rows hp opts).of fun db db' h => by simp only [values, LevelDbController.values, h]

theorem readsOnly_entries : ReadsOnly p (fun db => repository.entries db opts) :=
  (readsOnly_rows hp opts).of fun db db' h => by simp only [entries, h]

end

theorem readsOnly_answer (query : Query) : ReadsOnly p (fun db => repository.answer db query) := by
  cases query with
  | get id => exact (readsOnly_get hp id).of fun db db' h => by simp only [answer, h]
  | getBinary id => exact (readsOnly_getBinary hp id).of fun db db' h => by simp only [answer, h]
  | has id => exact (readsOnly_get hp id).of fun db db' h => by simp only [answer, has, h]
  | keys opts => exact (readsOnly_keys hp opts).of fun db db' h => by simp only [answer, h]
  | values opts => exact (readsOnly_values hp opts).of fun db db' h => by simp only [answer, h]
  | entries opts => exact (readsOnly_entries hp opts).of fun db db' h => by simp only [answer, h]
  | firstKey => exact (readsOnly_keys hp { limit := some 1 }).of fun db db' h => by simp only [answer, firstKey, h]
  | lastKey =>
    exact (readsOnly_keys hp { limit := some 1, reverse := true }).of fun db db' h => by simp only [answer, lastKey, h]
  | firstValue => exact (readsOnly_values hp { limit := some 1 }).of fun db db' h => by simp only [answer, firstValue, h]
  | lastValue =>
    exact (readsOnly_values hp { limit := some 1, reverse := true }).of fun db db' h => by simp only [answer, lastValue, h]
  | firstEntry => exact (readsOnly_entries hp { limit := some 1 }).of fun db db' h => by simp only [answer, firstEntry, h]
  | lastEntry =>
    exact (readsOnly_entries hp { limit := some 1, reverse := true }).of fun db db' h => by simp only [answer, lastEntry, h]

theorem writesOnly_putBinary (id : Id) (value : Buffer) : WritesOnly p (fun db => repository.putBinary db id value) :=
  writesOnly_insert (hp _ (inBucket_encodeKey _ id)) value

theorem writesOnly_delete (id : Id) : WritesOnly p (fun db => repository.delete db id) :=
  writesOnly_erase (hp _ (inBucket_encodeKey _ id))

theorem writesOnly_batchPutBinary (items : List (Id × Buffer)) :
    WritesOnly p (fun db => repository.batchPutBinary db items) := by
  refine writesOnly_foldl _ fun item hitem => ?_
  obtain ⟨⟨id, value⟩, -, rfl⟩ := List.mem_map.1 hitem
  exact writesOnly_putBinary hp id value

theorem writesOnly_batchDelete (ids : List Id) : WritesOnly p (fun db => repository.batchDelete db ids) := by
  refine writesOnly_foldl _ fun key hkey => ?_
  obtain ⟨id, -, rfl⟩ := List.mem_map.1 hkey
  exact writesOnly_delete hp id

theorem writesOnly_write (write : Write V) : WritesOnly p (fun db => settled db (repository.write db write)) := by
  cases write with
  | put id value => exact writesOnly_putBinary hp id _
  | putBinary id value => exact writesOnly_putBinary hp id value
  | delete id => exact writesOnly_delete hp id
  | add value => exact writesOnly_settled_map (fun _ => repository.getId value) fun id => writesOnly_putBinary hp id _
  | remove value => exact writesOnly_settled_map (fun _ => repository.getId value) fun id => writesOnly_delete hp id
  | batchPut items => exact writesOnly_batchPutBinary hp _
  | batchPutBinary items => exact writesOnly_batchPutBinary hp items
  | batchDelete ids => exact writesOnly_batchDelete hp ids
  | batchAdd values => exact writesOnly_settled_map (fun _ => repository.getIds values) fun ids => writesOnly_batchPutBinary hp _
  | batchRemove values =>
    exact writesOnly_settled_map (fun _ => repository.getIds values) fun ids => writesOnly_batchDelete hp ids

end Footprint

end Repository

end Lodestar.Db
