import Uscan.Lib.LastWins
import Uscan.Protocols.Text

/-!
# The instances of a SQL Browser answer

An answer is a list of instances, each a list of keys and values that is closed by an empty key.
`Mssql::parse` reads the keys and values up to the first empty key, so that it reports the first
instance (`parse_instances`). It compares the length of the answer with one byte: the third byte of
the packet, which has the high part of the length, is skipped. So an answer of more than 255 bytes
is dropped.
-/

namespace Uscan.Mssql

/-- An instance of an answer. -/
structure Instance where
  /-- Its keys and values. -/
  pairs : List (List Char × List Char)
  /-- There is one at least. -/
  pairs_ne : pairs ≠ []
  /-- No key is empty. -/
  key_ne : ∀ e ∈ pairs, e.1 ≠ []
  /-- The keys are different. -/
  nodup : (pairs.map (·.1)).Nodup
  /-- No key and no value has a semicolon. -/
  notMem : ∀ e ∈ pairs, ';' ∉ e.1 ∧ ';' ∉ e.2

namespace Instance

/-- The keys and values in a row. -/
def texts (i : Instance) : List (List Char) := i.pairs.flatMap fun e => [e.1, e.2]

/-- The text of an instance. -/
def text (i : Instance) : List Char := [';'].intercalate i.texts ++ [';', ';']

/-- The value of a key, if the instance has it. -/
def value (i : Instance) (key : String) : Option (List Char) :=
  (i.pairs.find? fun e => decide (e.1 = key.toList)).map (·.2)

/-- The texts of an instance have no semicolon. -/
theorem notMem_of_mem_texts {i : Instance} {t : List Char} (h : t ∈ i.texts) : ';' ∉ t := by
  obtain ⟨e, he, ht⟩ := List.mem_flatMap.mp h
  obtain ⟨hkey, hvalue⟩ := i.notMem e he
  rcases List.mem_pair.mp ht with rfl | rfl
  · exact hkey
  · exact hvalue

/-- An instance has texts. -/
theorem texts_ne (i : Instance) : i.texts ≠ [] := by
  obtain ⟨e, es, h⟩ := List.exists_cons_of_ne_nil i.pairs_ne
  rw [texts, h]
  exact List.cons_ne_nil _ _

/-- The text of an instance is split into its texts and an empty one, before what follows. -/
theorem splitOn_text (i : Instance) (rest : List Char) :
    (i.text ++ rest).splitOn ';' = i.texts ++ [] :: rest.splitOn ';' := by
  have htexts := List.splitOn_intercalate ';' (fun t ht => notMem_of_mem_texts ht) i.texts_ne
  rw [text, List.append_assoc, List.cons_append, List.splitOn_append_cons_self, htexts,
    List.cons_append, List.nil_append]
  exact congrArg (i.texts ++ ·) (List.splitOn_append_cons_self [] rest)

end Instance

/-! ## The walk over the keys and values -/

/-- What a key and a value set. -/
def set (found : Option (List Char) × Option (List Char)) (e : List Char × List Char) :
    Option (List Char) × Option (List Char) :=
  ((valueFor some "ServerName".toList e).or found.1,
    (valueFor some "InstanceName".toList e).or found.2)

/-- A key that is not empty and its value are walked over. -/
theorem readPairs_cons {k : List Char} (hk : k ≠ []) (v : List Char) (rest : List (List Char))
    (found : Option (List Char) × Option (List Char)) :
    readPairs (k :: v :: rest) found = readPairs rest (set found (k, v)) := by
  obtain ⟨server, inst⟩ := found
  rw [readPairs, if_neg hk, set, valueFor, valueFor, Option.bind_some, Option.bind_some]
  -- The two keys are different from each other.
  by_cases hserver : k = "ServerName".toList
  · subst hserver
    rfl
  by_cases hinst : k = "InstanceName".toList
  · subst hinst
    rfl
  · simp only [if_neg hserver, if_neg hinst, Option.none_or]

/-- The walk ends at an empty key. -/
theorem readPairs_nil (rest : List (List Char)) (found : Option (List Char) × Option (List Char)) :
    readPairs ([] :: rest) found = found := by
  obtain ⟨server, inst⟩ := found
  cases rest with
  | nil => rfl
  | cons v rest => exact if_pos rfl

/-- The walk goes over keys that are not empty and their values, and ends at an empty key. -/
theorem readPairs_flatMap {pairs : List (List Char × List Char)} (h : ∀ e ∈ pairs, e.1 ≠ [])
    (rest : List (List Char)) (found : Option (List Char) × Option (List Char)) :
    readPairs (pairs.flatMap (fun e => [e.1, e.2]) ++ [] :: rest) found =
      pairs.foldl set found := by
  induction pairs generalizing found with
  | nil => exact readPairs_nil rest found
  | cons e pairs ih =>
    have hpairs : ∀ e' ∈ pairs, e'.1 ≠ [] := fun e' he' => h e' (List.mem_cons_of_mem _ he')
    exact (readPairs_cons (h e List.mem_cons_self) e.2 _ found).trans (ih hpairs (set found e))

/-- The values of an instance are found. -/
theorem readPairs_texts (i : Instance) (rest : List (List Char)) :
    readPairs (i.texts ++ [] :: rest) (none, none) =
      (i.value "ServerName", i.value "InstanceName") := by
  -- The keys of an instance are different, so that the last value of a key is its only one.
  have hvalue (key : String) : lastValue some i.pairs key.toList = i.value key := by
    rw [lastValue, List.filterMap_some, lookup_reverse_of_nodup i.nodup, Instance.value,
      find?_eq_lookup]
  have hserver : (i.pairs.foldl set (none, none)).1 = i.value "ServerName" := by
    rw [foldl_eq_lastValue Prod.fst (fun _ _ => rfl), hvalue, Option.or_none]
  have hinst : (i.pairs.foldl set (none, none)).2 = i.value "InstanceName" := by
    rw [foldl_eq_lastValue Prod.snd (fun _ _ => rfl), hvalue, Option.or_none]
  rw [Instance.texts, readPairs_flatMap i.key_ne, ← hserver, ← hinst]

/-! ## The packet -/

/-- The answer with a body: the response byte, the length, the low byte first, and the body. -/
def packet (body : List UInt8) : List UInt8 :=
  resp :: (toBe16 (UInt16.ofNat body.length)).reverse ++ body

/-- The body of an answer. -/
def body (is : List Instance) : List UInt8 := utf8 (is.flatMap Instance.text)

/-- The device of an instance. -/
def report (src : SocketAddr) (i : Instance) : Device where
  protocol := "MSSQL".toList
  version := 1
  ip := src.ip
  mac := []
  deviceType := (i.value "InstanceName").getD "Unknown".toList
  serial := (i.value "ServerName").getD "Unknown".toList

/-- The parser compares the length of the body with the low byte of the length. -/
theorem parse_packet_eq (src : SocketAddr) (b : List UInt8) :
    parse src (packet b) =
      if (UInt16.ofNat b.length).toNat % 256 ≠ b.length then .ok []
      else .ok (let (server, inst) := readPairs ((fromUtf8Lossy b).splitOn ';') (none, none)
        [{
          protocol := "MSSQL".toList
          version := 1
          ip := src.ip
          mac := []
          deviceType := inst.getD "Unknown".toList
          serial := server.getD "Unknown".toList }]) := by
  have hlow : (packet b)[1]? = some (UInt8.ofNat ((UInt16.ofNat b.length).toNat % 256)) := rfl
  have hlen : (packet b).length - 3 = b.length := by simp [packet]
  have hlow' : (UInt8.ofNat ((UInt16.ofNat b.length).toNat % 256)).toNat =
      (UInt16.ofNat b.length).toNat % 256 :=
    UInt8.toNat_ofNat_of_lt' (Nat.mod_lt _ (by decide))
  unfold parse
  rw [if_neg (by simp [packet]), index_of_getElem? (show (packet b)[0]? = some resp from rfl),
    Res.ok_bind, if_neg (by simp), index_of_getElem? hlow, Res.ok_bind, hlow', hlen]
  rfl

/-- For every list of instances with a body of at most 255 bytes, one device is reported, that of
the first instance. A longer answer that fits in a datagram is dropped. -/
theorem parse_instances (src : SocketAddr) (i : Instance) (is : List Instance) :
    ((body (i :: is)).length ≤ 255 →
        parse src (packet (body (i :: is))) = .ok [report src i]) ∧
      (256 ≤ (body (i :: is)).length →
        parse src (packet (body (i :: is))) = .ok []) := by
  have hfirst : readPairs ((fromUtf8Lossy (body (i :: is))).splitOn ';') (none, none) =
      (i.value "ServerName", i.value "InstanceName") := by
    rw [body, fromUtf8Lossy_utf8, List.flatMap_cons, i.splitOn_text, readPairs_texts]
  rw [parse_packet_eq, hfirst]
  constructor
  · -- The low byte of the length is the length.
    intro h
    rw [if_neg (by rw [UInt16.toNat_ofNat']; omega)]
    rfl
  · -- The low byte is below the length.
    intro h
    rw [if_pos (by omega)]

/-- An instance with a server name and an instance name without a value. -/
def srv1 : Instance where
  pairs := [("ServerName".toList, "SRV1".toList), ("InstanceName".toList, [])]
  pairs_ne := by decide
  key_ne := by decide
  nodup := by decide
  notMem := by decide

/-- An instance of another server, with another name. -/
def sqlExpress : Instance where
  pairs := [("ServerName".toList, "SRV2".toList), ("InstanceName".toList, "SQLEXPRESS".toList),
    ("tcp".toList, "1433".toList)]
  pairs_ne := by decide
  key_ne := by decide
  nodup := by decide
  notMem := by decide

/-- An instance with a long value. -/
def srv2 : Instance where
  pairs := [("ServerName".toList, List.replicate 256 'x')]
  pairs_ne := List.cons_ne_nil _ _
  key_ne := by decide
  nodup := by decide
  notMem := by decide

/-- The first of two instances is reported. -/
theorem parse_instances_srv1 :
    (body [srv1, sqlExpress]).length ≤ 255 ∧
      parse ⟨.v4 .unspecified, 1434⟩ (packet (body [srv1, sqlExpress])) = .ok [{
        protocol := "MSSQL".toList
        version := 1
        ip := .v4 .unspecified
        mac := []
        deviceType := []
        serial := "SRV1".toList }] := by
  have hlen : (body [srv1, sqlExpress]).length ≤ 255 := by decide +kernel
  refine ⟨hlen, ?_⟩
  rw [(parse_instances _ srv1 [sqlExpress]).1 hlen]
  decide

/-- An answer with a body that fits in a datagram is dropped. -/
theorem parse_srv2_dropped :
    (body [srv2]).length ≤ 65504 ∧
      parse ⟨.v4 .unspecified, 1434⟩ (packet (body [srv2])) ≠
        .ok [report ⟨.v4 .unspecified, 1434⟩ srv2] := by
  have hlen : (body [srv2]).length = 269 := by decide +kernel
  rw [parse_packet_eq, hlen, if_pos (by decide)]
  simp

end Uscan.Mssql
