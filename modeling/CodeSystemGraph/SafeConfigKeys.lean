import CodeSystemGraph.JsonText
import CodeSystemGraph.SafeConfig
import Mathlib.Data.Finset.Card
import Mathlib.Order.Bounds.Basic

/-!
What the collector has after declarations in a row: each path once, with its least line, as
long as the names and the number of paths are within the budgets.
-/

namespace CodeSystemGraph.SafeConfig

open JsonText Ordered

def insertAll (collector : KeyCollector) (declared : List Declaration) :
    Except ConfigExtractionError KeyCollector :=
  declared.foldlM (fun collector key => collector.insert key.scope key.name key.line) collector

theorem insertAll_nil (collector : KeyCollector) : insertAll collector [] = .ok collector := rfl

theorem insertAll_cons {collector result : KeyCollector} {key : Declaration}
    {declared : List Declaration} : insertAll collector (key :: declared) = .ok result ↔
      ∃ next, collector.insert key.scope key.name key.line = .ok next ∧
        insertAll next declared = .ok result := by
  rw [insertAll, List.foldlM_cons, bind_eq_ok]
  rfl

theorem insertAll_append {collector result : KeyCollector} {declared more : List Declaration} :
    insertAll collector (declared ++ more) = .ok result ↔
      ∃ next, insertAll collector declared = .ok next ∧ insertAll next more = .ok result := by
  rw [insertAll, List.foldlM_append, bind_eq_ok]
  rfl

def keyPaths (declared : List Declaration) : List (List String × String) :=
  (declared.filter fun key => key.name ≠ "").map fun key => (key.scope, key.name)

def linesOf (declared : List Declaration) (scope : List String) (name : String) : Set Nat :=
  {line | (⟨scope, name, line⟩ : Declaration) ∈ declared}

/-- The key that a document has for a path: its least line, and the class of its name. -/
structure Summary (declared : List Declaration) (key : SafeConfigKey) : Prop where
  named : key.name ≠ ""
  least : IsLeast (linesOf declared key.scope key.name) key.line
  kind : key.sensitiveKind = classifySensitiveKey key.name

/-- The collector has the summary of every path declared so far. -/
def Collected (declared : List Declaration) (collector : KeyCollector) : Prop :=
  ∀ (path : KeyPath) (key : SafeConfigKey), collector.keys[path]? = some key ↔
    path = toLex (key.scope, key.name) ∧ Summary declared key

theorem mem_keyPaths {declared : List Declaration} {scope : List String} {name : String} :
    (scope, name) ∈ keyPaths declared ↔ name ≠ "" ∧ ∃ line, line ∈ linesOf declared scope name := by
  simp only [keyPaths, List.mem_map, List.mem_filter, decide_eq_true_eq, Prod.mk.injEq]
  constructor
  · rintro ⟨⟨_, _, line⟩, ⟨mem, named⟩, rfl, rfl⟩
    exact ⟨named, line, mem⟩
  · rintro ⟨named, line, mem⟩
    exact ⟨⟨scope, name, line⟩, ⟨mem, named⟩, rfl, rfl⟩

theorem collected_nil : Collected [] {} := by
  intro path key
  refine iff_of_false (fun found => ?_) (fun both => ?_)
  · exact absurd found (by simp)
  · exact absurd both.2.least.1 List.not_mem_nil

theorem linesOf_concat (declared : List Declaration) (key : Declaration) (scope : List String)
    (name : String) : linesOf (declared ++ [key]) scope name =
      if key.scope = scope ∧ key.name = name then insert key.line (linesOf declared scope name)
      else linesOf declared scope name := by
  obtain ⟨keyScope, keyName, keyLine⟩ := key
  ext line
  split
  · next same =>
    obtain ⟨rfl, rfl⟩ := same
    simp [linesOf, or_comm]
  · next differs =>
    have other : (⟨scope, name, line⟩ : Declaration) ≠ ⟨keyScope, keyName, keyLine⟩ := by
      intro same
      cases same
      exact differs ⟨rfl, rfl⟩
    simp only [linesOf, Set.mem_ofPred_eq, List.mem_append, List.mem_singleton, other, or_false]

variable {declared : List Declaration} {collector : KeyCollector}

theorem Collected.path_mem (collected : Collected declared collector) {path : KeyPath}
    (mem : path ∈ collector.keys.keys) : ofLex path ∈ keyPaths declared := by
  rw [Std.ExtTreeMap.mem_keys, Std.ExtTreeMap.mem_iff_isSome_getElem?, Option.isSome_iff_exists] at mem
  obtain ⟨key, found⟩ := mem
  obtain ⟨rfl, summary⟩ := (collected path key).1 found
  exact mem_keyPaths.2 ⟨summary.named, key.line, summary.least.1⟩

theorem Summary.unique {key other : SafeConfigKey} (summary : Summary declared key)
    (summary' : Summary declared other) (scope : key.scope = other.scope)
    (name : key.name = other.name) : key = other := by
  obtain ⟨keyScope, keyName, keyLine, keyKind⟩ := key
  obtain ⟨otherScope, otherName, otherLine, otherKind⟩ := other
  obtain rfl : keyScope = otherScope := scope
  obtain rfl : keyName = otherName := name
  have line : keyLine = otherLine := summary.least.unique summary'.least
  have kind : keyKind = otherKind := summary.kind.trans summary'.kind.symm
  rw [line, kind]

theorem Collected.known (collected : Collected declared collector) {scope : List String}
    {name : String} (named : name ≠ "") {line : Nat} (mem : line ∈ linesOf declared scope name) :
    ∃ key, collector.keys[(toLex (scope, name) : KeyPath)]? = some key := by
  classical
  have lines : ∃ line, line ∈ linesOf declared scope name := ⟨line, mem⟩
  have least : IsLeast (linesOf declared scope name) (Nat.find lines) :=
    ⟨Nat.find_spec lines, fun _ mem => Nat.find_min' lines mem⟩
  exact ⟨⟨scope, name, Nat.find lines, classifySensitiveKey name⟩,
    (collected _ _).2 ⟨rfl, named, least, rfl⟩⟩

theorem Collected.size_eq (collected : Collected declared collector) :
    collector.keys.size = (keyPaths declared).toFinset.card := by
  have nodup : (collector.keys.keys.map ofLex).Nodup :=
    Std.ExtTreeMap.nodup_keys.map ofLex.injective
  rw [← Std.ExtTreeMap.length_keys, ← List.length_map (f := ofLex),
    ← List.toFinset_card_of_nodup nodup]
  congr 1
  ext ⟨scope, name⟩
  rw [List.mem_toFinset, List.mem_toFinset]
  constructor
  · intro listed
    obtain ⟨path, known, same⟩ := List.mem_map.1 listed
    exact same ▸ collected.path_mem known
  · intro listed
    obtain ⟨named, line, mem⟩ := mem_keyPaths.1 listed
    obtain ⟨key, found⟩ := collected.known named mem
    refine List.mem_map.2 ⟨toLex (scope, name), ?_, rfl⟩
    rw [Std.ExtTreeMap.mem_keys, Std.ExtTreeMap.mem_iff_isSome_getElem?, found]
    rfl

theorem Collected.put (collected : Collected declared collector) {key : Declaration}
    {stored : SafeConfigKey} (scope : stored.scope = key.scope) (name : stored.name = key.name)
    (summary : Summary (declared ++ [key]) stored) :
    Collected (declared ++ [key])
      ⟨collector.keys.insert (toLex (key.scope, key.name) : KeyPath) stored⟩ := by
  intro path other
  rw [Std.ExtTreeMap.getElem?_insert]
  by_cases same : compare (toLex (key.scope, key.name) : KeyPath) path = .eq
  · obtain rfl := Std.LawfulEqOrd.compare_eq_iff_eq.1 same
    rw [if_pos same, Option.some_inj]
    constructor
    · rintro rfl
      exact ⟨by rw [scope, name], summary⟩
    · rintro ⟨path, summary'⟩
      have parts := Prod.mk.inj (toLex.injective path)
      exact summary.unique summary' (scope.trans parts.1) (name.trans parts.2)
  · rw [if_neg same, collected path other]
    refine and_congr_right fun here => ?_
    have elsewhere : ¬(key.scope = other.scope ∧ key.name = other.name) := by
      rintro ⟨scope, name⟩
      rw [here, scope, name] at same
      exact same (Std.ReflCmp.compare_self)
    have lines := linesOf_concat declared key other.scope other.name
    rw [if_neg elsewhere] at lines
    constructor
    · exact fun summary => ⟨summary.named, lines ▸ summary.least, summary.kind⟩
    · exact fun summary => ⟨summary.named, lines ▸ summary.least, summary.kind⟩

theorem Collected.skip (collected : Collected declared collector) {key : Declaration}
    (unnamed : key.name = "") : Collected (declared ++ [key]) collector := by
  intro path other
  rw [collected path other]
  refine and_congr_right fun _ => ?_
  by_cases named : other.name = ""
  · exact iff_of_false (fun summary => summary.named named) (fun summary => summary.named named)
  · have lines := linesOf_concat declared key other.scope other.name
    have elsewhere : ¬(key.scope = other.scope ∧ key.name = other.name) :=
      fun same => named (same.2.symm.trans unnamed)
    rw [if_neg elsewhere] at lines
    constructor
    · exact fun summary => ⟨summary.named, lines ▸ summary.least, summary.kind⟩
    · exact fun summary => ⟨summary.named, lines ▸ summary.least, summary.kind⟩

theorem Collected.inserted (collected : Collected declared collector) {key : Declaration}
    {next : KeyCollector} (inserted : collector.insert key.scope key.name key.line = .ok next) :
    key.name.utf8ByteSize ≤ maxKeyBytes ∧ Collected (declared ++ [key]) next := by
  rw [KeyCollector.insert] at inserted
  split at inserted
  · cases inserted
  · next short =>
    refine ⟨Nat.not_lt.1 short, ?_⟩
    split at inserted
    · next unnamed =>
      cases inserted
      exact collected.skip unnamed
    · next named =>
      have lines := linesOf_concat declared key key.scope key.name
      rw [if_pos ⟨rfl, rfl⟩] at lines
      cases found : collector.keys[(toLex (key.scope, key.name) : KeyPath)]? with
      | some existing =>
        simp only [found] at inserted
        cases inserted
        obtain ⟨path, summary⟩ := (collected _ _).1 found
        have parts := Prod.mk.inj (toLex.injective path)
        refine collected.put parts.1.symm parts.2.symm ⟨summary.named, ?_, summary.kind⟩
        have least := summary.least
        rw [← parts.1, ← parts.2] at least ⊢
        rw [lines, min_comm]
        exact least.insert key.line
      | none =>
        simp only [found] at inserted
        split at inserted
        · cases inserted
        · cases inserted
          have first : linesOf declared key.scope key.name = ∅ := by
            refine Set.eq_empty_of_forall_notMem fun line mem => ?_
            obtain ⟨known, at_path⟩ := collected.known named mem
            rw [found] at at_path
            cases at_path
          refine collected.put rfl rfl ⟨named, ?_, rfl⟩
          rw [lines, first]
          simp

theorem Collected.insert_isOk (collected : Collected declared collector) {key : Declaration}
    (short : key.name.utf8ByteSize ≤ maxKeyBytes)
    (fits : (keyPaths (declared ++ [key])).toFinset.card ≤ maxKeys) :
    ∃ next, collector.insert key.scope key.name key.line = .ok next := by
  rw [KeyCollector.insert, if_neg (Nat.not_lt.2 short)]
  split
  · exact ⟨_, rfl⟩
  · next named =>
    cases found : collector.keys[(toLex (key.scope, key.name) : KeyPath)]? with
    | some existing =>
      simp only [found]
      exact ⟨_, rfl⟩
    | none =>
      have absent : (key.scope, key.name) ∉ keyPaths declared := by
        intro listed
        obtain ⟨-, line, mem⟩ := mem_keyPaths.1 listed
        obtain ⟨known, at_path⟩ := collected.known named mem
        rw [found] at at_path
        cases at_path
      have paths : (keyPaths (declared ++ [key])).toFinset =
          insert (key.scope, key.name) (keyPaths declared).toFinset := by
        ext path
        simp [keyPaths, named]
      rw [paths, Finset.card_insert_of_notMem (by rwa [List.mem_toFinset]), ← collected.size_eq] at fits
      simp only [found, if_neg (Nat.not_le.2 fits)]
      exact ⟨_, rfl⟩

theorem size_le_of_insert {key : Declaration} {next : KeyCollector}
    (room : collector.keys.size ≤ maxKeys)
    (inserted : collector.insert key.scope key.name key.line = .ok next) :
    next.keys.size ≤ maxKeys := by
  rw [KeyCollector.insert] at inserted
  split at inserted
  · cases inserted
  · split at inserted
    · cases inserted
      exact room
    · cases found : collector.keys[(toLex (key.scope, key.name) : KeyPath)]? with
      | some existing =>
        simp only [found] at inserted
        cases inserted
        have known : (toLex (key.scope, key.name) : KeyPath) ∈ collector.keys := by
          rw [Std.ExtTreeMap.mem_iff_isSome_getElem?, found]
          rfl
        rwa [Std.ExtTreeMap.size_insert, if_pos (Std.ExtTreeMap.contains_iff_mem.2 known)]
      | none =>
        simp only [found] at inserted
        split at inserted
        · cases inserted
        · next room =>
          cases inserted
          have size := Std.ExtTreeMap.size_insert_le (t := collector.keys)
            (k := (toLex (key.scope, key.name) : KeyPath))
            (v := ⟨key.scope, key.name, key.line, classifySensitiveKey key.name⟩)
          have less := Nat.lt_of_not_le room
          exact Nat.le_trans size less

theorem card_keyPaths_le (declared rest : List Declaration) :
    (keyPaths declared).toFinset.card ≤ (keyPaths (declared ++ rest)).toFinset.card := by
  refine Finset.card_le_card fun path listed => List.mem_toFinset.2 ?_
  rw [keyPaths, List.filter_append, List.map_append]
  exact List.mem_append_left _ (List.mem_toFinset.1 listed)

theorem insertAll_collected {rest : List Declaration} (collected : Collected declared collector)
    (short : ∀ key ∈ rest, key.name.utf8ByteSize ≤ maxKeyBytes)
    (fits : (keyPaths (declared ++ rest)).toFinset.card ≤ maxKeys) :
    ∃ result, insertAll collector rest = .ok result ∧ Collected (declared ++ rest) result := by
  induction rest generalizing declared collector with
  | nil => exact ⟨collector, rfl, by rwa [List.append_nil]⟩
  | cons key rest ih =>
    obtain ⟨first, others⟩ := List.forall_mem_cons.1 short
    have whole : declared ++ key :: rest = declared ++ [key] ++ rest := by simp
    rw [whole] at fits ⊢
    obtain ⟨next, inserted⟩ :=
      collected.insert_isOk first ((card_keyPaths_le (declared ++ [key]) rest).trans fits)
    obtain ⟨result, done, stands⟩ := ih (collected.inserted inserted).2 others fits
    exact ⟨result, insertAll_cons.2 ⟨next, inserted, done⟩, stands⟩

theorem insertAll_within {rest : List Declaration} (collected : Collected declared collector)
    (room : collector.keys.size ≤ maxKeys) {result : KeyCollector}
    (inserted : insertAll collector rest = .ok result) :
    (∀ key ∈ rest, key.name.utf8ByteSize ≤ maxKeyBytes) ∧
      (keyPaths (declared ++ rest)).toFinset.card ≤ maxKeys := by
  induction rest generalizing declared collector with
  | nil =>
    rw [List.append_nil, ← collected.size_eq]
    exact ⟨fun key mem => absurd mem List.not_mem_nil, room⟩
  | cons key rest ih =>
    obtain ⟨next, first, done⟩ := insertAll_cons.1 inserted
    obtain ⟨short, stands⟩ := collected.inserted first
    obtain ⟨others, fits⟩ := ih stands (size_le_of_insert room first) done
    rw [List.append_assoc, List.singleton_append] at fits
    exact ⟨List.forall_mem_cons.2 ⟨short, others⟩, fits⟩

theorem insertAll_isOk_iff {declared : List Declaration} :
    (∃ result, insertAll {} declared = .ok result) ↔
      (∀ key ∈ declared, key.name.utf8ByteSize ≤ maxKeyBytes) ∧
        (keyPaths declared).toFinset.card ≤ maxKeys := by
  constructor
  · rintro ⟨result, inserted⟩
    exact insertAll_within collected_nil (Nat.zero_le _) inserted
  · rintro ⟨short, fits⟩
    obtain ⟨result, done, -⟩ := insertAll_collected collected_nil short fits
    exact ⟨result, done⟩

theorem Collected.mem_intoKeys (collected : Collected declared collector) (key : SafeConfigKey) :
    key ∈ collector.intoKeys ↔ Summary declared key := by
  rw [KeyCollector.intoKeys, mem_values]
  constructor
  · rintro ⟨path, found⟩
    exact ((collected path key).1 found).2
  · exact fun summary => ⟨_, (collected _ key).2 ⟨rfl, summary⟩⟩

theorem Collected.nodup (collected : Collected declared collector) :
    (collector.intoKeys.map fun key => (key.scope, key.name)).Nodup := by
  have paths : collector.intoKeys.map (fun key => (key.scope, key.name)) =
      collector.keys.keys.map ofLex := by
    rw [KeyCollector.intoKeys, values, List.map_map, ← Std.ExtTreeMap.map_fst_toList_eq_keys,
      List.map_map]
    refine List.map_congr_left fun entry listed => ?_
    have found := Std.ExtTreeMap.mem_toList_iff_getElem?_eq_some.1 listed
    exact (congrArg ofLex ((collected entry.1 entry.2).1 found).1).symm
  rw [paths]
  exact Std.ExtTreeMap.nodup_keys.map ofLex.injective

end CodeSystemGraph.SafeConfig
