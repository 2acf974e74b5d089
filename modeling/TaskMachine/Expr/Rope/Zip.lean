import TaskMachine.Expr.Rope

/-!
# Two ropes side by side

`zipFindSome?` looks at the items of two ropes in pairs and gives the first
answer. Where both ropes repeat sequences of one length, these are looked at
once. It says the same as a search through the pairs of the two lists.
-/

namespace TaskMachine.Expr.Rope

variable {α β γ : Type}

/-- How much of a walk a rope takes when it is taken apart. -/
def weight : Rope α → Nat
  | .leaf items => items.length + 1
  | .node x y => x.weight + y.weight + 1
  | .power count x => count * (x.weight + 1) + 1

/-- How much of a walk several ropes take. -/
def totalWeight : List (Rope α) → Nat
  | [] => 0
  | x :: xs => x.weight + totalWeight xs

/-- The first answer of a search through pairs of items. On each side come the items of a list
first, and then those of ropes. -/
def pairsFindSome? (f : α → β → Option γ) (as : List α) (xs : List (Rope α)) (bs : List β)
    (ys : List (Rope β)) : Option γ :=
  match as, xs, bs, ys with
  | a :: as, xs, b :: bs, ys =>
    match f a b with
    | some c => some c
    | none => pairsFindSome? f as xs bs ys
  | [], [], _, _ => none
  | _, _, [], [] => none
  | [], .leaf items :: xs, bs, ys => pairsFindSome? f items xs bs ys
  | [], .node x y :: xs, bs, ys => pairsFindSome? f [] (x :: y :: xs) bs ys
  | [], .power 0 _ :: xs, bs, ys => pairsFindSome? f [] xs bs ys
  | as, xs, [], .leaf items :: ys => pairsFindSome? f as xs items ys
  | as, xs, [], .node x y :: ys => pairsFindSome? f as xs [] (x :: y :: ys)
  | as, xs, [], .power 0 _ :: ys => pairsFindSome? f as xs [] ys
  | [], .power (m + 1) x :: xs, [], .power (n + 1) y :: ys =>
    if x.length = y.length then
      match pairsFindSome? f [] [x] [] [y] with
      | some c => some c
      | none => pairsFindSome? f [] (.power (m - n) x :: xs) [] (.power (n - m) y :: ys)
    else pairsFindSome? f [] (x :: .power m x :: xs) [] (y :: .power n y :: ys)
  | [], .power (m + 1) x :: xs, b :: bs, ys =>
    pairsFindSome? f [] (x :: .power m x :: xs) (b :: bs) ys
  | a :: as, xs, [], .power (n + 1) y :: ys =>
    pairsFindSome? f (a :: as) xs [] (y :: .power n y :: ys)
termination_by as.length + totalWeight xs + bs.length + totalWeight ys
decreasing_by
  all_goals simp only [totalWeight, weight, List.length_cons, List.length_nil, Nat.succ_mul]
  all_goals try have hm := Nat.mul_le_mul_right (x.weight + 1) (Nat.sub_le m n)
  all_goals try have hn := Nat.mul_le_mul_right (y.weight + 1) (Nat.sub_le n m)
  all_goals omega

/-- The first answer of a search through the items of two ropes in pairs. -/
def zipFindSome? (f : α → β → Option γ) (x : Rope α) (y : Rope β) : Option γ :=
  pairsFindSome? f [] [x] [] [y]

end TaskMachine.Expr.Rope
