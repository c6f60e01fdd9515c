import Mathlib.Data.List.Nodup
import Mathlib.Data.List.Basic

/-! # Tables with a unique identifier and a unique key

A table is a list of rows in which no identifier and no key occurs twice. Both
facts are fields of the structure, so a lookup by key and an update by identifier
can only ever meet one row.
-/
namespace Precizer.General

/-- One row: its identifier, its key and the columns an update may replace. -/
structure Entry (K V : Type*) where
  ident : ℕ
  key : K
  value : V
  deriving DecidableEq

structure UniqueTable (K V : Type*) where
  rows : List (Entry K V)
  identsNodup : (rows.map Entry.ident).Nodup
  keysNodup : (rows.map Entry.key).Nodup

namespace UniqueTable

variable {K V : Type*} [DecidableEq K]

def empty : UniqueTable K V := ⟨[],by simp,by simp⟩

def singleton (i : ℕ) (k : K) (v : V) : UniqueTable K V := ⟨[⟨i,k,v⟩],by simp,by simp⟩

def find (t : UniqueTable K V) (k : K) : Option (Entry K V) := t.rows.find? (fun e => e.key = k)

theorem find_eq_some_iff {t : UniqueTable K V} {k : K} {e : Entry K V} :
    t.find k = some e ↔ e ∈ t.rows ∧ e.key = k := by
  constructor
  · intro h
    exact ⟨List.mem_of_find?_eq_some h,by simpa using List.find?_some h⟩
  · rintro ⟨he,rfl⟩
    cases h : t.find e.key with
    | none =>
      have hne : ¬ e.key = e.key := fun heq => by simpa [heq] using List.find?_eq_none.mp h e he
      exact absurd rfl hne
    | some e' =>
      have hkey : e'.key = e.key := by simpa using List.find?_some h
      rw [List.inj_on_of_nodup_map t.keysNodup (List.mem_of_find?_eq_some h) he hkey]

theorem find_eq_none_iff {t : UniqueTable K V} {k : K} :
    t.find k = none ↔ ∀ e ∈ t.rows, e.key ≠ k := by
  simp [find,List.find?_eq_none]

theorem key_of_find {t : UniqueTable K V} {k : K} {e : Entry K V} (h : t.find k = some e) :
    e.key = k := (find_eq_some_iff.mp h).2

theorem ident_inj {t : UniqueTable K V} {k k' : K} {e e' : Entry K V} (h : t.find k = some e)
    (h' : t.find k' = some e') (hid : e.ident = e'.ident) : e = e' :=
  List.inj_on_of_nodup_map t.identsNodup (find_eq_some_iff.mp h).1 (find_eq_some_iff.mp h').1 hid

omit [DecidableEq K] in
theorem ext {t t' : UniqueTable K V} (h : t.rows = t'.rows) : t = t' := by
  cases t; cases t'; cases h; rfl

def assign (i : ℕ) (v : V) (e : Entry K V) : Entry K V :=
  if e.ident = i then { e with value := v } else e

omit [DecidableEq K] in
@[simp] theorem assign_ident (i : ℕ) (v : V) (e : Entry K V) : (assign i v e).ident = e.ident := by
  unfold assign; split <;> rfl

omit [DecidableEq K] in
@[simp] theorem assign_key (i : ℕ) (v : V) (e : Entry K V) : (assign i v e).key = e.key := by
  unfold assign; split <;> rfl

omit [DecidableEq K] in
theorem assign_self {i : ℕ} {v : V} {e : Entry K V} (h : e.ident = i) :
    assign i v e = { e with value := v } := if_pos h

omit [DecidableEq K] in
theorem assign_other {i : ℕ} {v : V} {e : Entry K V} (h : e.ident ≠ i) : assign i v e = e := if_neg h

/-- Replace the columns of the row with identifier `i`; identifiers and keys stay. -/
def update (t : UniqueTable K V) (i : ℕ) (v : V) : UniqueTable K V where
  rows := t.rows.map (assign i v)
  identsNodup := by
    simpa [List.map_map,Function.comp_def] using t.identsNodup
  keysNodup := by
    simpa [List.map_map,Function.comp_def] using t.keysNodup

theorem find_update (t : UniqueTable K V) (i : ℕ) (v : V) (k : K) :
    (t.update i v).find k = (t.find k).map (assign i v) := by
  simp [find,update,List.find?_map,Function.comp_def]

omit [DecidableEq K] in
theorem update_rows_append {t : UniqueTable K V} {a b : List (Entry K V)} {e : Entry K V}
    (h : t.rows = a ++ e :: b) (v : V) :
    (t.update e.ident v).rows = a ++ { e with value := v } :: b := by
  have hnodup := t.identsNodup
  rw [h,List.map_append,List.map_cons,List.nodup_append] at hnodup
  obtain ⟨-,htail,hdisjoint⟩ := hnodup
  have hbefore : ∀ x ∈ a, assign e.ident v x = x := by
    intro x hx
    exact assign_other (hdisjoint _ (List.mem_map_of_mem hx) _ List.mem_cons_self)
  have hafter : ∀ x ∈ b, assign e.ident v x = x := by
    intro x hx
    apply assign_other
    intro heq
    exact (List.nodup_cons.mp htail).1 (heq ▸ List.mem_map_of_mem hx)
  change t.rows.map (assign e.ident v) = _
  rw [h,List.map_append,List.map_cons,List.map_congr_left hbefore,List.map_congr_left hafter,
    assign_self rfl,List.map_id',List.map_id']

/-- Every row's columns replaced by a function of them. -/
def mapValues (t : UniqueTable K V) (f : V → V) : UniqueTable K V where
  rows := t.rows.map fun e => { e with value := f e.value }
  identsNodup := by
    simpa [List.map_map,Function.comp_def] using t.identsNodup
  keysNodup := by
    simpa [List.map_map,Function.comp_def] using t.keysNodup

omit [DecidableEq K] in
theorem mapValues_mapValues (t : UniqueTable K V) (f g : V → V) :
    (t.mapValues f).mapValues g = t.mapValues (fun v => g (f v)) := by
  apply ext
  simp [mapValues,List.map_map,Function.comp_def]

omit [DecidableEq K] in
theorem mapValues_eq_iff {t : UniqueTable K V} {f g : V → V} :
    t.mapValues f = t.mapValues g ↔ ∀ e ∈ t.rows, f e.value = g e.value := by
  constructor
  · intro h e he
    have hrows : t.rows.map _ = t.rows.map _ := congrArg rows h
    exact congrArg Entry.value (List.map_inj_left.mp hrows e he)
  · intro h
    apply ext
    apply List.map_congr_left
    intro e he
    rw [h e he]

def nextIdent (t : UniqueTable K V) : ℕ := (t.rows.map Entry.ident).foldr max 0 + 1

omit [DecidableEq K] in
theorem ident_lt_nextIdent {t : UniqueTable K V} {e : Entry K V} (h : e ∈ t.rows) :
    e.ident < t.nextIdent := by
  have hmax : ∀ {xs : List ℕ} {a : ℕ}, a ∈ xs → a ≤ xs.foldr max 0 := by
    intro xs a ha
    induction xs with
    | nil => cases ha
    | cons x xs ih =>
      rcases List.mem_cons.mp ha with rfl | ha
      · exact Nat.le_max_left _ _
      · exact Nat.le_trans (ih ha) (Nat.le_max_right _ _)
  exact Nat.lt_succ_of_le (hmax (List.mem_map_of_mem h))

/-- Append a row under a fresh identifier, or fail when the key is already present. -/
def insert (t : UniqueTable K V) (k : K) (v : V) : Option (UniqueTable K V) :=
  if h : t.find k = none then
    some {
      rows := t.rows ++ [⟨t.nextIdent,k,v⟩]
      identsNodup := by
        rw [List.map_append,List.nodup_append]
        refine ⟨t.identsNodup,by simp,?_⟩
        intro a ha b hb
        obtain ⟨e,he,rfl⟩ := List.mem_map.mp ha
        have hb : b = t.nextIdent := by simpa using hb
        exact hb ▸ Nat.ne_of_lt (ident_lt_nextIdent he)
      keysNodup := by
        rw [List.map_append,List.nodup_append]
        refine ⟨t.keysNodup,by simp,?_⟩
        intro a ha b hb
        obtain ⟨e,he,rfl⟩ := List.mem_map.mp ha
        have hb : b = k := by simpa using hb
        exact hb ▸ find_eq_none_iff.mp h e he }
  else none

theorem insert_isSome {t : UniqueTable K V} {k : K} (v : V) (h : t.find k = none) :
    ∃ t', t.insert k v = some t' := by
  simp [insert,h]

theorem insert_rows {t t' : UniqueTable K V} {k : K} {v : V} (h : t.insert k v = some t') :
    t.find k = none ∧ t'.rows = t.rows ++ [⟨t.nextIdent,k,v⟩] := by
  unfold insert at h
  split at h
  · rename_i hk
    cases h
    exact ⟨hk,rfl⟩
  · cases h

theorem find_insert {t t' : UniqueTable K V} {k : K} {v : V} (h : t.insert k v = some t') (k' : K) :
    t'.find k' = if k' = k then some ⟨t.nextIdent,k,v⟩ else t.find k' := by
  obtain ⟨hnone,hrows⟩ := insert_rows h
  simp only [find,hrows,List.find?_append]
  by_cases hk : k' = k
  · subst hk
    have hfind : t.rows.find? (fun e => e.key = k') = none := hnone
    simp [hfind]
  · have hk' : ¬ k = k' := fun h => hk h.symm
    simp [hk,hk']

/-- Delete the row with identifier `i`, if there is one. -/
def erase (t : UniqueTable K V) (i : ℕ) : UniqueTable K V where
  rows := t.rows.filter (fun e => e.ident ≠ i)
  identsNodup := t.identsNodup.sublist (List.filter_sublist.map _)
  keysNodup := t.keysNodup.sublist (List.filter_sublist.map _)

theorem find_erase_some {t : UniqueTable K V} {i : ℕ} {k : K} {e : Entry K V} :
    (t.erase i).find k = some e ↔ t.find k = some e ∧ e.ident ≠ i := by
  simp [find_eq_some_iff,erase]
  tauto

theorem find_erase_of_ne {t : UniqueTable K V} {i : ℕ} {k : K} {e : Entry K V}
    (h : t.find k = some e) (hid : e.ident ≠ i) : (t.erase i).find k = some e :=
  find_erase_some.mpr ⟨h,hid⟩

def keys (t : UniqueTable K V) : List K := t.rows.map Entry.key

omit [DecidableEq K] in
@[simp] theorem keys_update (t : UniqueTable K V) (i : ℕ) (v : V) : (t.update i v).keys = t.keys := by
  simp [keys,update,List.map_map,Function.comp_def]

theorem keys_insert {t t' : UniqueTable K V} {k : K} {v : V} (h : t.insert k v = some t') :
    t'.keys = t.keys ++ [k] := by
  rw [keys,(insert_rows h).2,List.map_append]
  rfl

theorem mem_keys {t : UniqueTable K V} {k : K} : k ∈ t.keys ↔ ∃ e, t.find k = some e := by
  simp only [keys,List.mem_map,find_eq_some_iff]

omit [DecidableEq K] in
theorem foldl_erase_rows (ids : List ℕ) (t : UniqueTable K V) :
    (ids.foldl erase t).rows = t.rows.filter fun e => e.ident ∉ ids := by
  induction ids generalizing t with
  | nil => simp
  | cons i ids ih =>
    rw [List.foldl_cons,ih]
    simp only [erase,List.filter_filter]
    apply List.filter_congr
    intro e _
    simp [Bool.and_comm]

/-- Write a row by its key: the row that has the key is updated, a missing one is inserted. -/
def upsert (t : UniqueTable K V) (k : K) (v : V) : UniqueTable K V :=
  match t.find k with
  | some e => t.update e.ident v
  | none => (t.insert k v).getD t

def names (t : UniqueTable K V) : List (ℕ × K) := t.rows.map fun e => (e.ident,e.key)

def otherRows (t : UniqueTable K V) (k : K) : List (Entry K V) := t.rows.filter fun e => e.key ≠ k

theorem upsert_known {t : UniqueTable K V} {k : K} {e : Entry K V} (h : t.find k = some e) (v : V) :
    t.upsert k v = t.update e.ident v := by
  rw [upsert,h]

theorem upsert_unknown {t t' : UniqueTable K V} {k : K} {v : V} (h : t.insert k v = some t') :
    t.upsert k v = t' := by
  rw [upsert,(insert_rows h).1]
  dsimp only
  rw [h]
  rfl

/-- Where the written row stands. -/
theorem upsert_rows (t : UniqueTable K V) (k : K) (v : V) :
    (∃ a b e, t.rows = a ++ e :: b ∧ e.key = k ∧ (t.upsert k v).rows = a ++ { e with value := v } :: b) ∨
      (t.find k = none ∧ (t.upsert k v).rows = t.rows ++ [⟨t.nextIdent,k,v⟩]) := by
  cases hfind : t.find k with
  | none =>
    right
    obtain ⟨t',ht'⟩ := insert_isSome v hfind
    rw [upsert_unknown ht']
    exact ⟨rfl,(insert_rows ht').2⟩
  | some e =>
    left
    obtain ⟨hmem,hkey⟩ := find_eq_some_iff.mp hfind
    obtain ⟨a,b,hrows⟩ := List.append_of_mem hmem
    refine ⟨a,b,e,hrows,hkey,?_⟩
    rw [upsert_known hfind]
    exact update_rows_append hrows v

theorem otherRows_upsert (t : UniqueTable K V) (k : K) (v : V) : (t.upsert k v).otherRows k = t.otherRows k := by
  rcases upsert_rows t k v with ⟨a,b,e,hrows,hkey,hwritten⟩ | ⟨-,hwritten⟩
  · simp [otherRows,hrows,hwritten,hkey]
  · simp [otherRows,hwritten]

theorem names_upsert (t : UniqueTable K V) (k : K) (v : V) : t.names <+: (t.upsert k v).names := by
  rcases upsert_rows t k v with ⟨a,b,e,hrows,-,hwritten⟩ | ⟨-,hwritten⟩
  · simp [names,hrows,hwritten]
  · simp [names,hwritten]

theorem find_upsert (t : UniqueTable K V) (k : K) (v : V) : ∃ i, (t.upsert k v).find k = some ⟨i,k,v⟩ := by
  rcases upsert_rows t k v with ⟨a,b,e,hrows,hkey,hwritten⟩ | ⟨-,hwritten⟩
  · subst hkey
    refine ⟨e.ident,find_eq_some_iff.mpr ⟨?_,rfl⟩⟩
    simp [hwritten]
  · refine ⟨t.nextIdent,find_eq_some_iff.mpr ⟨?_,rfl⟩⟩
    simp [hwritten]

/-- A key that is found has exactly one row. -/
theorem rows_of_find {t : UniqueTable K V} {k : K} {e : Entry K V} (h : t.find k = some e) :
    (t.rows.filter fun x => x.key = k) = [e] := by
  obtain ⟨hmem,hkey⟩ := find_eq_some_iff.mp h
  obtain ⟨a,b,hrows⟩ := List.append_of_mem hmem
  have hnodup := t.keysNodup
  rw [hrows,List.map_append,List.map_cons,List.nodup_append] at hnodup
  obtain ⟨-,htail,hdisjoint⟩ := hnodup
  have hbefore : ∀ x ∈ a, x.key ≠ k := fun x hx => hkey ▸ hdisjoint _ (List.mem_map_of_mem hx) _ List.mem_cons_self
  have hafter : ∀ x ∈ b, x.key ≠ k := by
    intro x hx heq
    exact (List.nodup_cons.mp htail).1 (hkey ▸ heq ▸ List.mem_map_of_mem hx)
  rw [hrows,List.filter_append,List.filter_cons_of_pos (by simpa using hkey),
    List.filter_eq_nil_iff.mpr (fun x hx => by simpa using hbefore x hx),
    List.filter_eq_nil_iff.mpr (fun x hx => by simpa using hafter x hx)]
  rfl

end UniqueTable
end Precizer.General
