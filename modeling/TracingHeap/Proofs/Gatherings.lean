import Mathlib.Data.Fintype.Card
import Mathlib.Data.Finset.Card
import Mathlib.Data.List.FinRange
import Mathlib.Data.List.Perm.Subperm
import Mathlib.Data.List.NodupEquivFin
import TracingHeap.Proofs.Crews

/-! Gatherings: parties that meet at a rendezvous again and again, and take their steps in any order. A party
that waits sleeps until it is notified, but may also wake up for no reason and look again. One number says how
many rendezvous are over; every party is there, or has arrived once more, or has yet to leave the last one. -/

namespace TracingHeap

/-- What a party does between two steps. -/
inductive Stance where
  /-- It is on its way to the next rendezvous, if there is one more. -/
  | working
  /-- It arrived as number `order`, and sleeps until its turn is over. -/
  | asleep (order : Nat) (turn : Turn)
  /-- The same, but it was notified, and looks again once it gets to. -/
  | notified (order : Nat) (turn : Turn)

/-- One who goes to every rendezvous. -/
structure Party where
  /-- What it was answered by the rendezvous it has left, the first one first. -/
  orders : List Nat
  stance : Stance

namespace Party

/-- The numbers it arrived as, whether or not it has left. -/
def drawn (p : Party) : List Nat :=
  match p.stance with
  | .working => p.orders
  | .asleep order _ | .notified order _ => p.orders ++ [order]

/-- How many rendezvous it has left. -/
def left (p : Party) : Nat := p.orders.length

/-- How many rendezvous it has entered. -/
def entered (p : Party) : Nat := p.drawn.length

/-- It was notified, if it sleeps. -/
def notify (p : Party) : Party :=
  match p.stance with
  | .asleep order turn => { p with stance := .notified order turn }
  | _ => p

/-- It leaves a rendezvous and is answered its number. -/
def leave (p : Party) (order : Nat) : Party := ⟨p.orders ++ [order], .working⟩

/-- It falls asleep. -/
def sleep (p : Party) (order : Nat) (turn : Turn) : Party := { p with stance := .asleep order turn }

/-- It is inside a rendezvous and waits. -/
def Waits (p : Party) (order : Nat) (turn : Turn) : Prop :=
  p.stance = .asleep order turn ∨ p.stance = .notified order turn

end Party

/-- Parties and the rendezvous where they meet. -/
structure Gathering (n : Nat) where
  rendezvous : Rendezvous
  parties : Fin n → Party

namespace Gathering

variable {n rounds K : Nat} {g g' : Gathering n} {i j : Fin n}

/-- Nobody has arrived anywhere. -/
def new (n : Nat) : Gathering n := ⟨.new n, fun _ => ⟨[], .working⟩⟩

/-- Party `i` has arrived. The last one to do so goes on and notifies everybody. -/
def afterArrival (g : Gathering n) (i : Fin n) (arrival : Rendezvous.Arrival) (r : Rendezvous) : Gathering n :=
  match arrival.waitFor with
  | some turn => ⟨r, Function.update g.parties i ((g.parties i).sleep arrival.order turn)⟩
  | none => ⟨r, Function.update (fun j => (g.parties j).notify) i ((g.parties i).leave arrival.order)⟩

/-- Party `i` has looked whether it may pass. -/
def afterLook (g : Gathering n) (i : Fin n) (order : Nat) (turn : Turn) (pass : Bool) (r : Rendezvous) : Gathering n :=
  ⟨r, Function.update g.parties i (if pass then (g.parties i).leave order else (g.parties i).sleep order turn)⟩

/-- One party takes a step. A party that sleeps may look as well: it woke up by itself. -/
inductive Moves (rounds : Nat) (g : Gathering n) : Gathering n → Prop where
  | arrives (i : Fin n) {arrival : Rendezvous.Arrival} {r : Rendezvous} (working : (g.parties i).stance = .working)
    (more : (g.parties i).left < rounds) (arrived : Rendezvous.arrive g.rendezvous = .ok arrival r) :
    Moves rounds g (g.afterArrival i arrival r)
  | looks (i : Fin n) {order : Nat} {turn : Turn} {pass : Bool} {r : Rendezvous}
    (waits : (g.parties i).Waits order turn) (looked : Rendezvous.mayPass turn g.rendezvous = .ok pass r) :
    Moves rounds g (g.afterLook i order turn pass r)

/-- What the parties come to from a rendezvous where nobody has arrived, with a number of rounds ahead. -/
inductive Reachable (n rounds : Nat) : Gathering n → Prop where
  | start : Reachable n rounds (new n)
  | step {g g' : Gathering n} (before : Reachable n rounds g) (moves : Moves rounds g g') : Reachable n rounds g'

/-- Party `i` can get on by a step that it takes without waking up by itself. -/
def Able (rounds : Nat) (g : Gathering n) (i : Fin n) : Prop :=
  match (g.parties i).stance with
  | .working => (g.parties i).left < rounds ∧ ∃ arrival r, Rendezvous.arrive g.rendezvous = .ok arrival r
  | .asleep _ _ => False
  | .notified _ turn => ∃ r, Rendezvous.mayPass turn g.rendezvous = .ok true r

/-- The answers of rendezvous number `k` so far. -/
def answers (g : Gathering n) (k : Nat) : List Nat := (List.finRange n).filterMap fun i => (g.parties i).orders[k]?

/-! ### The numbers that are drawn -/

/-- What `count` of the parties drew in round `K`, and all of them in every round before. -/
structure Draws (drawn : Fin n → List Nat) (K count : Nat) : Prop where
  size : ∀ i, (drawn i).length = K ∨ (drawn i).length = K + 1
  drew : (Finset.univ.filter fun i => (drawn i).length = K + 1).card = count
  apart : ∀ i j (k order : Nat), (drawn i)[k]? = some order → (drawn j)[k]? = some order → i = j
  bounded : ∀ i (k order : Nat), (drawn i)[k]? = some order → order < n
  recent : ∀ i (order : Nat), (drawn i)[K]? = some order → order < count

variable {drawn : Fin n → List Nat} {count : Nat}

/-- The next one draws the number of those who drew before. -/
theorem Draws.draw (draws : Draws drawn K count) (ready : (drawn i).length = K) (free : count < n) :
    Draws (Function.update drawn i (drawn i ++ [count])) K (count + 1) := by
  have mine : ∀ (k order : Nat), (drawn i ++ [count])[k]? = some order →
      (drawn i)[k]? = some order ∨ k = K ∧ order = count := by
    intro k order found
    by_cases old : k < (drawn i).length
    · rw [List.getElem?_append_left old] at found
      exact .inl found
    · rw [List.getElem?_append_right (Nat.le_of_not_lt old)] at found
      obtain ⟨first, same⟩ := List.getElem?_eq_some_iff.mp found
      rw [List.length_singleton] at first
      rw [List.getElem_singleton] at same
      exact .inr ⟨by omega, same.symm⟩
  -- What anybody drew is old, or the number drawn now.
  have cases : ∀ j (k order : Nat), (Function.update drawn i (drawn i ++ [count]) j)[k]? = some order →
      (drawn j)[k]? = some order ∨ j = i ∧ k = K ∧ order = count := by
    intro j k order found
    by_cases same : j = i
    · subst same
      rw [Function.update_self] at found
      exact (mine k order found).imp_right fun now => ⟨rfl, now⟩
    · rw [Function.update_of_ne same] at found
      exact .inl found
  refine ⟨fun j => ?_, ?_, fun j j' k order one other => ?_, fun j k order found => ?_, fun j order found => ?_⟩
  · by_cases same : j = i
    · subst same
      rw [Function.update_self, List.length_append, ready]
      exact .inr rfl
    · rw [Function.update_of_ne same]
      exact draws.size j
  · have more : (Finset.univ.filter fun j => (Function.update drawn i (drawn i ++ [count]) j).length = K + 1) =
        insert i (Finset.univ.filter fun j => (drawn j).length = K + 1) := by
      ext j
      rw [Finset.mem_insert, Finset.mem_filter, Finset.mem_filter]
      by_cases same : j = i
      · subst same
        rw [Function.update_self, List.length_append, ready]
        simp
      · rw [Function.update_of_ne same]
        simp [same]
    rw [more, Finset.card_insert_of_notMem (by simp [ready]), draws.drew]
  · rcases cases j k order one with old | ⟨rfl, rfl, rfl⟩
    · rcases cases j' k order other with old' | ⟨rfl, rfl, rfl⟩
      · exact draws.apart j j' k order old old'
      · exact absurd (draws.recent j order old) (Nat.lt_irrefl _)
    · rcases cases j' k order other with old' | ⟨same, -, -⟩
      · exact absurd (draws.recent j' order old') (Nat.lt_irrefl _)
      · exact same.symm
  · rcases cases j k order found with old | ⟨-, -, rfl⟩
    · exact draws.bounded j k order old
    · exact free
  · rcases cases j K order found with old | ⟨-, -, rfl⟩
    · exact Nat.lt_succ_of_lt (draws.recent j order old)
    · exact Nat.lt_succ_self _

/-- If as many drew as have not, all the others did. -/
theorem Draws.others (draws : Draws drawn K count) (ready : (drawn i).length = K) (all : count + 1 = n) (other : j ≠ i) :
    (drawn j).length = K + 1 := by
  by_contra missing
  have fewer : (Finset.univ.filter fun j => (drawn j).length = K + 1) ⊆ (Finset.univ.erase i).erase j := by
    intro k member
    have drew := (Finset.mem_filter.mp member).2
    refine Finset.mem_erase.mpr ⟨?_, Finset.mem_erase.mpr ⟨?_, Finset.mem_univ k⟩⟩
    · rintro rfl
      exact missing drew
    · rintro rfl
      omega
  have few := Finset.card_le_card fewer
  rw [draws.drew, Finset.card_erase_of_mem (Finset.mem_erase.mpr ⟨other, Finset.mem_univ j⟩),
    Finset.card_erase_of_mem (Finset.mem_univ i), Finset.card_univ, Fintype.card_fin] at few
  have two : 2 ≤ n := by
    have := i.isLt
    have := j.isLt
    have := Fin.val_ne_of_ne other
    omega
  omega

/-- When all have drawn, the next round starts. -/
theorem Draws.next (draws : Draws drawn K n) : Draws drawn (K + 1) 0 := by
  have everyone : ∀ i, (drawn i).length = K + 1 := by
    have whole : (Finset.univ.filter fun i => (drawn i).length = K + 1) = Finset.univ := by
      rw [← Finset.card_eq_iff_eq_univ, draws.drew, Fintype.card_fin]
    intro i
    have member : i ∈ Finset.univ.filter fun i => (drawn i).length = K + 1 := by
      rw [whole]
      exact Finset.mem_univ i
    exact (Finset.mem_filter.mp member).2
  refine ⟨fun i => .inl (everyone i), ?_, draws.apart, draws.bounded, fun i order found => ?_⟩
  · rw [Finset.card_eq_zero, Finset.filter_eq_empty_iff]
    intro i _
    rw [everyone i]
    omega
  · rw [List.getElem?_eq_none (Nat.le_of_eq (everyone i))] at found
    cases found

/-! ### The steps of a party -/

/-- Where a party stands when `K` rendezvous are over. -/
inductive Stands (turn : Turn) (K : Nat) (p : Party) : Prop where
  | working (stance : p.stance = .working) (ended : p.left = K)
  | arrived (order : Nat) (stance : p.stance = .asleep order turn) (ended : p.left = K)
  /-- It has not left the last one yet. -/
  | late (order : Nat) (stance : p.stance = .notified order (!turn)) (ended : p.left + 1 = K)

/-- Everybody has been through `K` rendezvous and nobody through more. -/
structure InStep (g : Gathering n) (K : Nat) : Prop where
  parties : g.rendezvous.parties = n
  calm : g.rendezvous.aborted = false
  stands : ∀ i, Stands g.rendezvous.current K (g.parties i)
  draws : Draws (fun i => (g.parties i).drawn) K (g.rendezvous.arrivals g.rendezvous.current)
  going : g.rendezvous.arrivals g.rendezvous.current < n
  behind : g.rendezvous.arrivals (!g.rendezvous.current) ≤ n
  last : 0 < K → g.rendezvous.arrivals (!g.rendezvous.current) = n

theorem drawn_notify (p : Party) : p.notify.drawn = p.drawn := by
  obtain ⟨orders, stance⟩ := p
  cases stance <;> rfl

theorem drawn_of_working {p : Party} (working : p.stance = .working) : p.drawn = p.orders := by
  rw [Party.drawn, working]

theorem new_inStep (some : 0 < n) : (new n).InStep 0 where
  parties := rfl
  calm := rfl
  stands _ := .working rfl rfl
  draws := by
    refine ⟨fun _ => .inl rfl, ?_, fun i j k order found => ?_, fun i k order found => ?_, fun i order found => ?_⟩
    · rw [show (new n).rendezvous.arrivals (new n).rendezvous.current = 0 from rfl, Finset.card_eq_zero,
        Finset.filter_eq_empty_iff]
      intro i _ entered
      cases entered
    all_goals cases found
  going := some
  behind := Nat.zero_le n
  last positive := absurd positive (Nat.lt_irrefl 0)

/-- One party has drawn a number, and the others have what they had. -/
theorem drawn_update {parties : Fin n → Party} {order : Nat} (working : (g.parties i).stance = .working)
    (mine : (parties i).drawn = (g.parties i).orders ++ [order])
    (others : ∀ j, j ≠ i → (parties j).drawn = (g.parties j).drawn) :
    (fun j => (parties j).drawn) =
      Function.update (fun j => (g.parties j).drawn) i ((g.parties i).drawn ++ [order]) := by
  funext j
  by_cases same : j = i
  · subst same
    rw [Function.update_self, mine, drawn_of_working working]
  · rw [Function.update_of_ne same, others j same]

theorem Stands.left_of_working {turn : Turn} {p : Party} (stands : Stands turn K p) (working : p.stance = .working) :
    p.left = K := by
  cases stands with
  | working _ ended => exact ended
  | arrived _ other => rw [working] at other; cases other
  | late _ other => rw [working] at other; cases other

/-- A party that has drawn in the present round sleeps. -/
theorem Stands.asleep_of_drawn {turn : Turn} {p : Party} (stands : Stands turn K p) (drew : p.drawn.length = K + 1) :
    ∃ order, p.stance = .asleep order turn ∧ p.left = K := by
  cases stands with
  | working stance ended =>
    rw [drawn_of_working stance] at drew
    exact absurd (ended.symm.trans drew) (by omega)
  | arrived order stance ended => exact ⟨order, stance, ended⟩
  | late order stance ended =>
    rw [Party.drawn, stance, List.length_append, List.length_singleton] at drew
    exact absurd (ended.symm.trans drew) (by omega)

/-- Once a party has arrived the others wait for more to come, or the round is over. -/
theorem InStep.arrives {arrival : Rendezvous.Arrival} {r : Rendezvous} (step : g.InStep K)
    (working : (g.parties i).stance = .working) (arrived : Rendezvous.arrive g.rendezvous = .ok arrival r) :
    (g.afterArrival i arrival r).InStep K ∨ (g.afterArrival i arrival r).InStep (K + 1) := by
  have left := (step.stands i).left_of_working working
  have ready : (g.parties i).drawn.length = K := by
    rw [drawn_of_working working]
    exact left
  have drew := step.draws.draw ready step.going
  obtain ⟨calm, order, ⟨everyone, wait, rfl⟩ | ⟨others, wait, rfl⟩⟩ := Rendezvous.arrive_ok arrived
  · obtain ⟨parties, aborted, turn, full, empty⟩ := g.rendezvous.turned_fields
    rw [step.parties] at everyone parties
    rw [everyone] at drew full
    have asleep : ∀ j, j ≠ i → ∃ o, (g.parties j).stance = .asleep o g.rendezvous.current ∧ (g.parties j).left = K :=
      fun j other => (step.stands j).asleep_of_drawn (step.draws.others ready everyone other)
    right
    simp only [afterArrival, wait]
    refine ⟨parties, aborted.trans calm, fun j => ?_, ?_, ?_, ?_, fun _ => ?_⟩
    · simp only [turn]
      by_cases same : j = i
      · subst same
        rw [Function.update_self]
        exact .working rfl (by rw [Party.left, Party.leave, List.length_append, List.length_singleton, ← left, Party.left])
      · obtain ⟨o, stance, ended⟩ := asleep j same
        rw [Function.update_of_ne same]
        refine .late o ?_ ?_
        · rw [Party.notify, stance, Bool.not_not]
        · rw [Party.left, Party.notify, stance, ← ended, Party.left]
    · simp only [turn, empty]
      rw [drawn_update working (by rw [Function.update_self]; rfl) fun j other => by
        rw [Function.update_of_ne other, drawn_notify], order]
      exact drew.next
    · simp only [turn, empty]
      exact i.pos
    · simp only [turn, Bool.not_not]
      exact Nat.le_of_eq full
    · simp only [turn, Bool.not_not]
      exact full
  · obtain ⟨parties, aborted, turn, one, others'⟩ := g.rendezvous.joined_fields
    have going := step.going
    rw [step.parties] at others parties
    left
    simp only [afterArrival, wait]
    refine ⟨parties, aborted.trans calm, fun j => ?_, ?_, ?_, ?_, fun more => ?_⟩
    · simp only [turn]
      by_cases same : j = i
      · subst same
        rw [Function.update_self]
        exact .arrived arrival.order rfl left
      · rw [Function.update_of_ne same]
        exact step.stands j
    · simp only [turn, one]
      rw [drawn_update working (by rw [Function.update_self]; rfl) fun j other => by
        rw [Function.update_of_ne other], order]
      exact drew
    · simp only [turn, one]
      omega
    · simp only [turn, others']
      exact step.behind
    · simp only [turn, others']
      exact step.last more

/-- One who looks passes if the round that it waits for is over, and otherwise sleeps on. -/
theorem InStep.looks {order : Nat} {turn : Turn} {pass : Bool} {r : Rendezvous} (step : g.InStep K)
    (waits : (g.parties i).Waits order turn) (looked : Rendezvous.mayPass turn g.rendezvous = .ok pass r) :
    (g.afterLook i order turn pass r).InStep K := by
  obtain ⟨calm, rfl, rfl⟩ := Rendezvous.mayPass_ok looked
  have going := step.going
  -- Its numbers are the same whether or not it has left.
  have drawn : ∀ p : Party, Stands g.rendezvous.current K p → p.drawn = (g.parties i).drawn →
      (⟨g.rendezvous, Function.update g.parties i p⟩ : Gathering n).InStep K := by
    intro p stands same
    refine ⟨step.parties, calm, fun j => ?_, ?_, going, step.behind, step.last⟩
    · change Stands g.rendezvous.current K (Function.update g.parties i p j)
      by_cases mine : j = i
      · subst mine
        rw [Function.update_self]
        exact stands
      · rw [Function.update_of_ne mine]
        exact step.stands j
    · have all : (fun j => (Function.update g.parties i p j).drawn) = fun j => (g.parties j).drawn := by
        funext j
        by_cases mine : j = i
        · subst mine
          rw [Function.update_self, same]
        · rw [Function.update_of_ne mine]
      rw [all]
      exact step.draws
  unfold afterLook
  cases step.stands i with
  | working stance => rcases waits with other | other <;> rw [stance] at other <;> cases other
  | arrived o stance ended =>
    have same : o = order ∧ g.rendezvous.current = turn := by
      rcases waits with other | other <;> rw [stance] at other <;> cases other
      exact ⟨rfl, rfl⟩
    obtain ⟨rfl, rfl⟩ := same
    rw [if_neg (by rw [decide_eq_true_eq, step.parties]; omega)]
    exact drawn _ (.arrived o rfl ended) (by rw [Party.drawn, Party.drawn, stance]; rfl)
  | late o stance ended =>
    have same : o = order ∧ (!g.rendezvous.current) = turn := by
      rcases waits with other | other <;> rw [stance] at other <;> cases other
      exact ⟨rfl, rfl⟩
    obtain ⟨rfl, rfl⟩ := same
    rw [if_pos (by rw [decide_eq_true_eq, step.parties, step.last (by omega)])]
    refine drawn _ (.working rfl ?_) (by rw [Party.drawn, Party.drawn, stance]; rfl)
    rw [Party.left, Party.leave, List.length_append, List.length_singleton, ← ended, Party.left]

theorem InStep.moves (step : g.InStep K) (moves : Moves rounds g g') : g'.InStep K ∨ g'.InStep (K + 1) := by
  cases moves with
  | arrives i working _ arrived => exact step.arrives working arrived
  | looks i waits looked => exact .inl (step.looks waits looked)

theorem Reachable.inStep (some : 0 < n) (reachable : Reachable n rounds g) : ∃ K, g.InStep K := by
  induction reachable with
  | start => exact ⟨0, new_inStep some⟩
  | step _ moves ih =>
    obtain ⟨K, step⟩ := ih
    rcases step.moves moves with step | step
    · exact ⟨K, step⟩
    · exact ⟨K + 1, step⟩

/-! ### What follows for every run -/

theorem orders_drawn {p : Party} {k order : Nat} (answered : p.orders[k]? = some order) : p.drawn[k]? = some order := by
  unfold Party.drawn
  obtain ⟨inside, -⟩ := List.getElem?_eq_some_iff.mp answered
  cases p.stance with
  | working => exact answered
  | asleep o turn =>
    simp only
    rw [List.getElem?_append_left inside, answered]
  | notified o turn =>
    simp only
    rw [List.getElem?_append_left inside, answered]

theorem Stands.left_le {turn : Turn} {p : Party} (stands : Stands turn K p) : p.left ≤ K := by
  cases stands with
  | working _ ended => exact Nat.le_of_eq ended
  | arrived _ _ ended => exact Nat.le_of_eq ended
  | late _ _ ended => exact Nat.le_of_succ_le (Nat.le_of_eq ended)

theorem InStep.left_le_entered (step : g.InStep K) (i j : Fin n) : (g.parties i).left ≤ (g.parties j).entered := by
  refine Nat.le_trans (step.stands i).left_le ?_
  rcases step.draws.size j with size | size
  · exact Nat.le_of_eq size.symm
  · exact Nat.le_of_succ_le (Nat.le_of_eq size.symm)

theorem InStep.arrivals_le (step : g.InStep K) (turn : Turn) : g.rendezvous.arrivals turn ≤ n := by
  have turns : turn = g.rendezvous.current ∨ turn = !g.rendezvous.current := by
    cases turn <;> cases g.rendezvous.current <;> decide
  rcases turns with current | other
  · rw [current]
    exact Nat.le_of_lt step.going
  · rw [other]
    exact step.behind

theorem InStep.answers_subperm (step : g.InStep K) (k : Nat) : (g.answers k).Subperm (List.range n) := by
  refine List.subperm_of_subset ?_ fun order member => ?_
  · refine (List.nodup_finRange n).filterMap fun i j order one other => ?_
    exact step.draws.apart i j k order (orders_drawn one) (orders_drawn other)
  · obtain ⟨i, -, answered⟩ := List.mem_filterMap.mp member
    exact List.mem_range.mpr (step.draws.bounded i k order (orders_drawn answered))

theorem InStep.answers_perm (step : g.InStep K) {k : Nat} (all : ∀ i, k < (g.parties i).left) :
    (g.answers k).Perm (List.range n) := by
  refine (step.answers_subperm k).perm_of_length_le ?_
  have everyone : (g.answers k).length = (List.finRange n).length := by
    rw [answers, List.length_filterMap_eq_countP]
    refine List.countP_eq_length.mpr fun i _ => ?_
    rw [List.getElem?_eq_getElem (all i), Option.isSome_some]
  rw [everyone, List.length_finRange, List.length_range]

/-- One who is late may leave. If nobody is, one who has yet to arrive can do so, for not all have. -/
theorem InStep.able (step : g.InStep K) (more : (g.parties i).left < rounds) : ∃ j, g.Able rounds j := by
  by_contra stuck
  have asleep : ∀ j, (g.parties j).drawn.length = K + 1 := by
    have ahead : ∀ j, (g.parties j).left < rounds → (g.parties j).drawn.length = K + 1 ∧ (g.parties j).left = K := by
      intro j more
      cases step.stands j with
      | working stance ended =>
        refine absurd ⟨j, ?_⟩ stuck
        rw [Able, stance]
        exact ⟨more, Rendezvous.arrive_total step.calm⟩
      | arrived order stance ended => exact ⟨by rw [Party.drawn, stance, ← ended]; exact List.length_append, ended⟩
      | late order stance ended =>
        refine absurd ⟨j, ?_⟩ stuck
        rw [Able, stance]
        refine ⟨g.rendezvous, ?_⟩
        rw [Rendezvous.mayPass_total step.calm, step.parties, step.last (by omega), decide_eq_true (Nat.le_refl n)]
    intro j
    obtain ⟨-, here⟩ := ahead i more
    exact (ahead j (Nat.lt_of_le_of_lt (step.stands j).left_le (here ▸ more))).1
  have full : (Finset.univ.filter fun j => (g.parties j).drawn.length = K + 1).card = n := by
    rw [Finset.filter_true_of_mem fun j _ => asleep j, Finset.card_univ, Fintype.card_fin]
  have going := step.going
  have drew := step.draws.drew
  omega

/-- Parties that meet again and again stay in step, whatever the order of their steps. Nobody has left a
rendezvous that another has not entered; the answers of one are different numbers below the number of
parties, and all of these once everyone has left; no counter exceeds that number; and as long as someone has
not been through all rounds, someone can get on without waking up by itself. -/
theorem stays_in_step (some : 0 < n) (reachable : Reachable n rounds g) :
    (∀ (k : Nat) (i j : Fin n), k ≤ (g.parties i).left → k ≤ (g.parties j).entered) ∧
    (∀ k, (g.answers k).Subperm (List.range n) ∧
      ((∀ i, k < (g.parties i).left) → (g.answers k).Perm (List.range n))) ∧
    (∀ turn, g.rendezvous.arrivals turn ≤ n) ∧
    ((∃ i, (g.parties i).left < rounds) → ∃ j, g.Able rounds j) := by
  obtain ⟨K, step⟩ := reachable.inStep some
  refine ⟨fun k i j passed => Nat.le_trans passed (step.left_le_entered i j), fun k => ?_, step.arrivals_le, ?_⟩
  · exact ⟨step.answers_subperm k, step.answers_perm⟩
  · rintro ⟨i, more⟩
    exact step.able more

/-- Two parties have met once, and one of them has left. -/
def metOnce : Gathering 2 :=
  (((new 2).afterArrival 0 ⟨0, some false⟩ ⟨2, 1, 0, false, false⟩).afterArrival 1 ⟨1, none⟩
    ⟨2, 2, 0, true, false⟩).afterLook 0 0 false true ⟨2, 2, 0, true, false⟩

theorem metOnce_in_step :
    0 < 2 ∧ Reachable 2 8 metOnce ∧ (∀ j, 1 ≤ (metOnce.parties j).entered) ∧
      (metOnce.answers 0).Perm (List.range 2) ∧ (∀ turn, metOnce.rendezvous.arrivals turn ≤ 2) ∧
      ∃ j, metOnce.Able 8 j := by
  have reachable : Reachable 2 8 metOnce :=
    ((Reachable.start.step (.arrives 0 rfl (by decide) rfl)).step (.arrives 1 rfl (by decide) rfl)).step
      (.looks 0 (.inr rfl) rfl)
  obtain ⟨entered, answers, counters, able⟩ := stays_in_step (by decide) reachable
  exact ⟨by decide, reachable, fun j => entered 1 0 j (by decide), (answers 0).2 (by decide), counters,
    able ⟨0, by decide⟩⟩

end Gathering

/-! ### Crews are gatherings -/

/-- What a party is while a worker goes through its phases: it meets the others after each. -/
def Party.Follows (p : Party) (w : Worker) : Prop :=
  match w.activity with
  | .starting => p.stance = .working ∧ p.left + w.phases.length = collectionPhases.length
  | .closing _ => p.stance = .working ∧ 0 < w.phases.length ∧ p.left + w.phases.length = collectionPhases.length
  | .waiting turn =>
    (∃ order, p.Waits order turn) ∧ 0 < w.phases.length ∧ p.left + w.phases.length = collectionPhases.length
  | .finished => p.stance = .working ∧ p.left = collectionPhases.length
  | .brokenOff => False

/-- One who leaves a rendezvous goes on to the next phase. -/
theorem Party.follows_leave {p : Party} {w : Worker} (order : Nat) (present : 0 < w.phases.length)
    (count : p.left + w.phases.length = collectionPhases.length) : (p.leave order).Follows w.advance := by
  have left : (p.leave order).left = p.left + 1 := List.length_append
  unfold Follows Worker.advance
  cases phases : w.phases with
  | nil =>
    rw [phases] at present
    cases present
  | cons phase rest =>
    rw [phases, List.length_cons] at count
    cases rest with
    | nil => exact ⟨rfl, by rw [left]; exact count⟩
    | cons next rest => exact ⟨rfl, by rw [left, ← count]; simp only [List.length_cons]; omega⟩

theorem Party.Follows.notify {p : Party} {w : Worker} (follows : p.Follows w) : p.notify.Follows w := by
  obtain ⟨orders, stance⟩ := p
  unfold Follows at follows ⊢
  cases stance with
  | working => exact follows
  | notified order turn => exact follows
  | asleep order turn =>
    cases activity : w.activity with
    | starting => rw [activity] at follows; cases follows.1
    | closing share => rw [activity] at follows; cases follows.1
    | finished => rw [activity] at follows; cases follows.1
    | brokenOff => rw [activity] at follows; exact follows
    | waiting turn =>
      rw [activity] at follows
      obtain ⟨⟨o, waits⟩, rest⟩ := follows
      refine ⟨⟨o, ?_⟩, rest⟩
      rcases waits with same | same
      · cases same
        exact .inr rfl
      · cases same

namespace Crew

variable {n : Nat} {c c' : Crew} {h h' : Heap} {g : Gathering n} {i : Nat} {b : Bool}

/-- The workers of the crew are the parties of the gathering. -/
structure Meets (c : Crew) (g : Gathering n) : Prop where
  rendezvous : g.rendezvous = c.rendezvous
  size : c.workers.size = n
  follows : ∀ (i : Fin n) (w : Worker), c.workers[i.val]? = some w → (g.parties i).Follows w

/-- One worker and its party changed, and others were notified at most. -/
theorem Meets.replace {w' : Worker} {r' : Rendezvous} {p : Party} {parties : Fin n → Party} (meets : c.Meets g)
    (inside : i < n) (follows : p.Follows w')
    (others : ∀ j, parties j = g.parties j ∨ parties j = (g.parties j).notify) :
    (c.after i w' r').Meets ⟨r', Function.update parties ⟨i, inside⟩ p⟩ where
  rendezvous := rfl
  size := (Array.size_setIfInBounds ..).trans meets.size
  follows j w found := by
    simp only [after, Array.getElem?_setIfInBounds] at found
    change (Function.update parties ⟨i, inside⟩ p j).Follows w
    by_cases same : j = ⟨i, inside⟩
    · subst same
      have small : i < c.workers.size := by
        rw [meets.size]
        exact inside
      simp only [if_true, small, Option.some.injEq] at found
      rw [Function.update_self, ← found]
      exact follows
    · rw [if_neg fun other => same (Fin.ext other.symm)] at found
      rw [Function.update_of_ne same]
      rcases others j with alike | alike
      · rw [alike]
        exact meets.follows j w found
      · rw [alike]
        exact (meets.follows j w found).notify

/-- Who ends a phase arrives. -/
theorem Meets.ends {w w' : Worker} {r' : Rendezvous} (meets : c.Meets g) (inside : i < n) (calm : c.rendezvous.aborted = false)
    (working : (g.parties ⟨i, inside⟩).stance = .working) (present : 0 < w.phases.length)
    (count : (g.parties ⟨i, inside⟩).left + w.phases.length = collectionPhases.length)
    (ended : w.Ends c.rendezvous w' r') :
    ∃ g', Gathering.Moves collectionPhases.length g g' ∧ (c.after i w' r').Meets g' := by
  obtain ⟨⟨order, waitFor⟩, r, arrived⟩ := Rendezvous.arrive_total calm
  have more : (g.parties ⟨i, inside⟩).left < collectionPhases.length := by omega
  rw [← meets.rendezvous] at arrived
  refine ⟨_, .arrives ⟨i, inside⟩ working more arrived, ?_⟩
  rw [meets.rendezvous] at arrived
  obtain ⟨-, rfl, ⟨everyone, rfl, rfl⟩ | ⟨others, rfl, rfl⟩⟩ := Rendezvous.arrive_ok arrived
  · cases ended with
    | last _ => exact meets.replace inside (Party.follows_leave _ present count) fun j => .inr rfl
    | wait others => exact absurd everyone others
  · cases ended with
    | last everyone => exact absurd everyone others
    | wait _ => exact meets.replace inside ⟨⟨_, .inl rfl⟩, present, count⟩ fun j => .inl rfl

/-- A step of a worker is a step of its party, or of no concern to the rendezvous. -/
theorem Meets.step (meets : c.Meets g) (calm : c.rendezvous.aborted = false) (ok : stepOf i (c, h) = .ok b (c', h'))
    (well : c'.fault = none) :
    c'.Meets g ∨ ∃ g', Gathering.Moves collectionPhases.length g g' ∧ c'.Meets g' := by
  obtain ⟨-, ⟨-, rfl, rfl⟩ | ⟨inside, w', r', steps, rfl⟩⟩ := stepOf_ok ok well
  · exact .inl meets
  have small : i < n := meets.size ▸ inside
  have mine := meets.follows ⟨i, small⟩ c.workers[i] (Array.getElem?_eq_getElem inside)
  -- The worker stays where it is between two rendezvous.
  have stays : ∀ w, (g.parties ⟨i, small⟩).Follows w → (c.after i w c.rendezvous).Meets g := by
    intro w follows
    have same : (c.after i w c.rendezvous).Meets _ := meets.replace small follows fun j => .inl rfl
    rw [Function.update_eq_self, ← meets.rendezvous] at same
    rw [← meets.rendezvous]
    exact same
  unfold Party.Follows at mine
  cases steps with
  | rests => exact .inl (stays _ (meets.follows ⟨i, small⟩ _ (Array.getElem?_eq_getElem inside)))
  | performs starting phases performed ended =>
    rw [starting] at mine
    refine .inr (meets.ends small calm mine.1 ?_ ?_ ended)
    · simp only [phases, List.length_cons]
      omega
    · exact mine.2
  | begins starting phases begun =>
    rw [starting] at mine
    exact .inl (stays _ ⟨mine.1, by simp only [phases, List.length_cons]; omega, mine.2⟩)
  | ends closing finished ended =>
    rw [closing] at mine
    exact .inr (meets.ends small calm mine.1 mine.2.1 mine.2.2 ended)
  | works closing unfinished worked =>
    rw [closing] at mine
    exact .inl (stays _ mine)
  | passes waiting free =>
    rw [waiting] at mine
    obtain ⟨⟨order, waits⟩, present, count⟩ := mine
    refine .inr ⟨_, .looks ⟨i, small⟩ waits (Rendezvous.mayPass_total (meets.rendezvous ▸ calm)), ?_⟩
    rw [meets.rendezvous, decide_eq_true free]
    exact meets.replace small (Party.follows_leave order present count) fun j => .inl rfl

theorem meets_ofCollectors (collectors : Array Collector) :
    (ofCollectors collectors).Meets (Gathering.new collectors.size) where
  rendezvous := rfl
  size := Array.size_map
  follows i w found := by
    simp only [ofCollectors, Array.getElem?_map, Option.map_eq_some_iff] at found
    obtain ⟨collector, -, rfl⟩ := found
    exact ⟨rfl, Nat.zero_add _⟩

/-- Whatever the order of its steps, a crew without a fault is a gathering with a round for every phase. -/
theorem Run.meets {collectors : Array Collector} {t : Crew × Heap} (some : 0 < collectors.size)
    (run : Run (ofCollectors collectors, h) t) :
    ∃ g, Gathering.Reachable collectors.size collectionPhases.length g ∧ t.1.Meets g := by
  induction run with
  | refl => exact ⟨_, .start, meets_ofCollectors collectors⟩
  | step _ took well ih =>
    obtain ⟨g, reachable, meets⟩ := ih
    obtain ⟨K, inStep⟩ := reachable.inStep some
    rcases meets.step (meets.rendezvous ▸ inStep.calm) took well with same | ⟨g', moves, meets'⟩
    · exact ⟨g, reachable, same⟩
    · exact ⟨g', reachable.step moves, meets'⟩

end Crew

end TracingHeap
