import Mathlib.Data.Option.Basic

/-!
# Transactions that are cut off

A connection to a store works on what is committed, or within a transaction on a copy that `commit`
puts in its place. The process may stop between any two statements: a session has a budget of
statements, and when it is spent the call is cut off. What the store then holds is what was
committed.

* §1 `execute`, `executeBatch`, sessions;
* §2 `transaction_cases` -- a batch within `begin` and `commit` has happened, or nothing of it.
-/

namespace Lib.Transactions

/-! ## 1. Sessions -/

/-- A connection, with the copy of an open transaction. -/
structure Connection (σ : Type) where
  committed : σ
  working : Option σ

/-- What a statement reads. -/
def Connection.view {σ : Type} (conn : Connection σ) : σ := conn.working.getD conn.committed

/-- A statement of a batch. -/
inductive Sql (Op : Type) where
  | begin
  | commit
  | stmt (op : Op)

/-- Why a call did not end well: a statement has failed, or the process has stopped. -/
inductive Halt where
  | err (text : String)
  | cut
  deriving DecidableEq

/-- A connection, and how many statements the process will still execute; `none`: it does not
    stop. -/
structure Session (σ : Type) where
  budget : Option Nat
  conn : Connection σ

section

variable {σ Op α : Type}

/-- A new connection to a store. -/
def Session.start (budget : Option Nat) (store : σ) : Session σ := ⟨budget, ⟨store, none⟩⟩

/-- The process goes on to the next statement, or stops before it. -/
def Session.spend (s : Session σ) : Option (Session σ) :=
  match s.budget with
  | none => some s
  | some 0 => none
  | some (n + 1) => some { s with budget := some n }

/-- One statement. -/
def execute (apply : Op → σ → Except String σ) (conn : Connection σ) :
    Sql Op → Except String (Connection σ)
  | .begin =>
    match conn.working with
    | some _ => .error "cannot start a transaction within a transaction"
    | none => .ok { conn with working := some conn.committed }
  | .commit =>
    match conn.working with
    | some store => .ok { committed := store, working := none }
    | none => .error "cannot commit - no transaction is active"
  | .stmt op =>
    match conn.working with
    | some store => (apply op store).map fun store => { conn with working := some store }
    | none => (apply op conn.committed).map fun store => { conn with committed := store }

/-- `execute_batch`: it stops at the first statement that fails. -/
def executeBatch (apply : Op → σ → Except String σ) :
    List (Sql Op) → Session σ → Except Halt Unit × Session σ
  | [], s => (.ok (), s)
  | sql :: rest, s =>
    match s.spend with
    | none => (.error .cut, s)
    | some s =>
      match execute apply s.conn sql with
      | .error text => (.error (.err text), s)
      | .ok conn => executeBatch apply rest { s with conn }

/-- A statement that reads. -/
def Session.query (s : Session σ) (f : σ → α) : Except Halt α × Session σ :=
  match s.spend with
  | none => (.error .cut, s)
  | some s => (.ok (f s.conn.view), s)

/-- A read of a new connection. -/
theorem Session.query_start (f : σ → α) (budget : Option Nat) (store : σ) :
    (∃ left, (Session.start budget store).query f = (.ok (f store), .start left store) ∧
        (budget = none → left = none)) ∨
      (budget ≠ none ∧ (Session.start budget store).query f =
        (.error .cut, .start budget store)) := by
  match budget with
  | none => exact .inl ⟨none, rfl, fun h => h⟩
  | some 0 => exact .inr ⟨nofun, rfl⟩
  | some (n + 1) => exact .inl ⟨some n, rfl, nofun⟩

/-! ## 2. Transactions -/

/-- A batch within `begin` and `commit`. -/
def transaction (ops : List Op) : List (Sql Op) := .begin :: ops.map .stmt ++ [.commit]

theorem Session.spend_conn {s s' : Session σ} (h : s.spend = some s') :
    s'.conn = s.conn ∧ (s.budget = none → s'.budget = none) := by
  obtain ⟨budget, conn⟩ := s
  match budget, h with
  | none, h =>
    cases h
    exact ⟨rfl, fun _ => rfl⟩
  | some (n + 1), h =>
    cases h
    exact ⟨rfl, nofun⟩

theorem Session.spend_none {s : Session σ} (h : s.spend = none) : s.budget ≠ none := by
  intro hnone
  rw [Session.spend, hnone] at h
  cases h

/-- **From within a transaction**: the rest of it is executed and committed, or the process stops
    and what is committed is as before. By induction on the statements that are left. -/
theorem executeBatch_within {apply : Op → σ → Except String σ} {ops : List Op} {store store' : σ}
    (h : ops.foldlM (fun store op => apply op store) store = .ok store') (s : Session σ)
    (hworking : s.conn.working = some store) :
    (∃ budget, executeBatch apply (ops.map .stmt ++ [.commit]) s =
        (.ok (), ⟨budget, ⟨store', none⟩⟩) ∧ (s.budget = none → budget = none)) ∨
      (s.budget ≠ none ∧ ∃ s', executeBatch apply (ops.map .stmt ++ [.commit]) s =
        (.error .cut, s') ∧
        s'.conn.committed = s.conn.committed) := by
  induction ops generalizing s store with
  | nil =>
    cases h
    rw [List.map_nil, List.nil_append, executeBatch]
    cases hspend : s.spend with
    | none => exact .inr ⟨Session.spend_none hspend, s, rfl, rfl⟩
    | some next =>
      obtain ⟨hconn, hbudget⟩ := Session.spend_conn hspend
      have hcommit : execute apply next.conn .commit = .ok ⟨store', none⟩ := by
        rw [execute, hconn, hworking]
      dsimp only
      rw [hcommit]
      exact .inl ⟨next.budget, rfl, hbudget⟩
  | cons op ops ih =>
    rw [List.foldlM_cons] at h
    rw [List.map_cons, List.cons_append, executeBatch]
    cases happly : apply op store with
    | error text =>
      rw [happly] at h
      cases h
    | ok mid =>
      rw [happly] at h
      cases hspend : s.spend with
      | none => exact .inr ⟨Session.spend_none hspend, s, rfl, rfl⟩
      | some next =>
        obtain ⟨hconn, hbudget⟩ := Session.spend_conn hspend
        have hstmt : execute apply next.conn (.stmt op) = .ok ⟨s.conn.committed, some mid⟩ := by
          rw [execute, hconn, hworking]
          dsimp only
          rw [happly]
          rfl
        dsimp only
        rw [hstmt]
        rcases ih h ⟨next.budget, ⟨s.conn.committed, some mid⟩⟩ rfl with hdone | hcut
        · obtain ⟨budget, hrun, hkeep⟩ := hdone
          exact .inl ⟨budget, hrun, fun hnone => hkeep (hbudget hnone)⟩
        · obtain ⟨hne, hrest⟩ := hcut
          exact .inr ⟨fun hnone => hne (hbudget hnone), hrest⟩

/-- **A transaction has happened, or nothing of it**: at every point where the process may stop. -/
theorem transaction_cases {apply : Op → σ → Except String σ} {ops : List Op} {store store' : σ}
    (h : ops.foldlM (fun store op => apply op store) store = .ok store') (budget : Option Nat) :
    (∃ left, executeBatch apply (transaction ops) (.start budget store) =
      (.ok (), .start left store') ∧
        (budget = none → left = none)) ∨
      (budget ≠ none ∧ ∃ s', executeBatch apply (transaction ops) (.start budget store) =
        (.error .cut, s') ∧
        s'.conn.committed = store) := by
  rw [transaction, List.cons_append, executeBatch]
  cases hspend : (Session.start budget store).spend with
  | none => exact .inr ⟨Session.spend_none hspend, _, rfl, rfl⟩
  | some next =>
    obtain ⟨hconn, hbudget⟩ := Session.spend_conn hspend
    have hbegin : execute apply next.conn .begin = .ok ⟨store, some store⟩ := by
      rw [execute, hconn]
      rfl
    dsimp only
    rw [hbegin]
    rcases executeBatch_within h ⟨next.budget, ⟨store, some store⟩⟩ rfl with hdone | hcut
    · obtain ⟨left, hrun, hkeep⟩ := hdone
      exact .inl ⟨left, hrun, fun hnone => hkeep (hbudget hnone)⟩
    · obtain ⟨hne, hrest⟩ := hcut
      exact .inr ⟨fun hnone => hne (hbudget hnone), hrest⟩

end

end Lib.Transactions
