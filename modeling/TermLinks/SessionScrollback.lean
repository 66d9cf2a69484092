import TermLinks.SessionStream

namespace TermLinks.SessionStream

/-- What becomes of a subscriber's channel, and of whether it still is one, from the actions alone. -/
def follow (id : Nat) : Bool × Mailbox Bytes → Action → Bool × Mailbox Bytes
  | (live, box), .publish data => (live, if live then box.offer updateCapacity data else box)
  | (live, box), .cancel other => (if other = id then false else live, box)
  | (live, box), .receive other => (live, if other = id then (box.receive.map Prod.snd).getD box else box)
  | channel, _ => channel

/-- The chunks that the publishes of a run offer to one subscriber. -/
def offered (id : Nat) : Session → List Action → List Bytes
  | _, [] => []
  | s, a :: as =>
    (if s.channels[id]?.any Channel.subscribed then a.chunk.toList else []) ++
      match s.step a with
      | none => []
      | some t => offered id t as

/-- One step of a channel: what it is offered, taken and told is its own. -/
theorem follow_step {s t : Session} {a : Action} {id : Nat} {c : Channel} (h : s.step a = some t)
    (hc : s.channels[id]? = some c) : ∃ d, t.channels[id]? = some d ∧ d.initial = c.initial ∧
      (d.subscribed, d.box) = follow id (c.subscribed, c.box) a := by
  cases a with
  | publish data =>
    simp only [Session.step] at h
    split at h
    next =>
      cases Option.some.inj h
      refine ⟨c.publish data, by simp [Session.publish, hc], ?_, ?_⟩
      · unfold Channel.publish
        split
        next => rfl
        next => rfl
      · unfold Channel.publish follow
        cases live : c.subscribed with
        | true => simp
        | false => simp [live]
    next => cases h
  | readError =>
    simp only [Session.step] at h
    split at h
    next => cases Option.some.inj h; exact ⟨c, hc, rfl, rfl⟩
    next => cases h
  | finish exitCode signal =>
    simp only [Session.step] at h
    split at h
    next => cases Option.some.inj h; exact ⟨c, hc, rfl, rfl⟩
    next => cases h
  | subscribe =>
    cases Option.some.inj h
    have hlt := (List.getElem?_eq_some_iff.mp hc).1
    exact ⟨c, by simp [Session.subscribe, List.getElem?_append_left hlt, hc], rfl, rfl⟩
  | cancel other =>
    cases Option.some.inj h
    by_cases he : other = id
    · subst he
      exact ⟨c.cancel, by simp [Session.cancel, hc], rfl, by simp [follow, Channel.cancel]⟩
    · exact ⟨c, by simp [Session.cancel, he, hc], rfl, by simp [follow, he]⟩
  | receive other =>
    obtain ⟨⟨chunk, u⟩, hr, ht⟩ := Option.map_eq_some_iff.mp h
    obtain ⟨channel, box, ho, hb, hu⟩ := receive_eq_some hr
    subst ht
    subst hu
    by_cases he : other = id
    · subst he
      cases Option.some.inj (ho.symm.trans hc)
      have hlt := (List.getElem?_eq_some_iff.mp hc).1
      exact ⟨{ c with box }, by simp [hlt], rfl, by simp [follow, hb]⟩
    · exact ⟨c, by simp [List.getElem?_set_ne he, hc], rfl, by simp [follow, he]⟩

theorem follow_run {actions : List Action} {s t : Session} {id : Nat} {c : Channel}
    (run : exec Session.step s actions = some t) (hc : s.channels[id]? = some c) :
    ∃ d, t.channels[id]? = some d ∧ d.initial = c.initial ∧
      (d.subscribed, d.box) = actions.foldl (follow id) (c.subscribed, c.box) := by
  induction actions generalizing s c with
  | nil =>
    cases Option.some.inj run
    exact ⟨c, hc, rfl, rfl⟩
  | cons a actions ih =>
    obtain ⟨u, hu, run⟩ := exec_cons_iff.mp run
    obtain ⟨d, hd, initial, next⟩ := follow_step hu hc
    obtain ⟨e, he, initial', later⟩ := ih run hd
    refine ⟨e, he, initial'.trans initial, ?_⟩
    rw [later, next, List.foldl_cons]

/-- A subscriber is live until the first time it is cancelled. -/
theorem live_follow (id : Nat) (actions : List Action) (live : Bool) (box : Mailbox Bytes) :
    (actions.foldl (follow id) (live, box)).1 = (live && decide (.cancel id ∉ actions)) := by
  induction actions generalizing live box with
  | nil => simp
  | cons a actions ih =>
    rw [List.foldl_cons]
    cases a with
    | publish data => rw [follow, ih]; simp
    | readError => rw [follow, ih]; simp; all_goals nofun
    | finish exitCode signal => rw [follow, ih]; simp; all_goals nofun
    | subscribe => rw [follow, ih]; simp; all_goals nofun
    | cancel other =>
      rw [follow, ih]
      by_cases he : other = id
      · simp [he]
      · simp [he, Ne.symm he]
    | receive other => rw [follow, ih]; simp

theorem offered_cancelled {actions : List Action} {s : Session} {id : Nat} {c : Channel}
    (hc : s.channels[id]? = some c) (gone : c.subscribed = false) : offered id s actions = [] := by
  induction actions generalizing s c with
  | nil => rfl
  | cons a actions ih =>
    have quiet : s.channels[id]?.any Channel.subscribed = false := by simp [hc, gone]
    simp only [offered, quiet, Bool.false_eq_true, if_false, List.nil_append]
    cases step : s.step a with
    | none => rfl
    | some t =>
      obtain ⟨d, hd, _, next⟩ := follow_step step hc
      refine ih hd ?_
      have still := congrArg Prod.fst next
      have flag := live_follow id [a] c.subscribed c.box
      rw [List.foldl_cons, List.foldl_nil, ← still, gone, Bool.false_and] at flag
      exact flag

/-- Every chunk published until it is cancelled is offered to a subscriber, each once and in order, and no other. -/
theorem offered_run {actions : List Action} {s t : Session} {id : Nat} {c : Channel}
    (run : exec Session.step s actions = some t) (hc : s.channels[id]? = some c) (live : c.subscribed = true) :
    offered id s actions = publishedBy (actions.takeWhile (· ≠ .cancel id)) := by
  induction actions generalizing s c with
  | nil => rfl
  | cons a actions ih =>
    obtain ⟨u, hu, run⟩ := exec_cons_iff.mp run
    obtain ⟨d, hd, _, next⟩ := follow_step hu hc
    have asked : s.channels[id]?.any Channel.subscribed = true := by simp [hc, live]
    have flag := live_follow id [a] c.subscribed c.box
    rw [List.foldl_cons, List.foldl_nil, ← congrArg Prod.fst next, live, Bool.true_and] at flag
    simp only [offered, asked, if_true, hu]
    by_cases stop : a = .cancel id
    · have gone : d.subscribed = false := by simpa [stop] using flag
      rw [offered_cancelled hd gone, stop, List.takeWhile_cons_of_neg (by simp)]
      rfl
    · have still : d.subscribed = true := by simpa [Ne.symm stop] using flag
      rw [ih run hd still, List.takeWhile_cons_of_pos (by simpa using stop)]
      cases chunk : a.chunk with
      | none => simp [publishedBy, chunk]
      | some data => simp [publishedBy, chunk]

theorem channels_run {actions : List Action} {s t : Session} (run : exec Session.step s actions = some t) :
    t.channels.length = s.channels.length + actions.count .subscribe := by
  induction actions generalizing s with
  | nil =>
    cases Option.some.inj run
    simp
  | cons a actions ih =>
    obtain ⟨u, hu, run⟩ := exec_cons_iff.mp run
    rw [ih run]
    rcases channels_step hu with same | ⟨rfl, rfl⟩
    · have other : a ≠ .subscribe := by
        rintro rfl
        cases Option.some.inj hu
        simp [Session.subscribe] at same
      rw [same, List.count_cons_of_ne other]
    · rw [List.count_cons_self]
      simp only [Session.subscribe, List.length_append, List.length_singleton]
      omega

/-- What was never subscribed is offered nothing. -/
theorem offered_before {actions : List Action} {s t : Session} {id : Nat}
    (run : exec Session.step s actions = some t) (absent : t.channels.length ≤ id) :
    offered id s actions = [] := by
  induction actions generalizing s with
  | nil => rfl
  | cons a actions ih =>
    have length := channels_run run
    obtain ⟨u, hu, run⟩ := exec_cons_iff.mp run
    have none : s.channels[id]? = none := List.getElem?_eq_none (by omega)
    simp only [offered, none, Option.any_none, Bool.false_eq_true, if_false, List.nil_append, hu]
    exact ih run

theorem offered_append {before after : List Action} {s t : Session} {id : Nat}
    (run : exec Session.step s before = some t) :
    offered id s (before ++ after) = offered id s before ++ offered id t after := by
  induction before generalizing s with
  | nil =>
    cases Option.some.inj run
    rfl
  | cons a before ih =>
    obtain ⟨u, hu, run⟩ := exec_cons_iff.mp run
    simp only [List.cons_append, offered, hu, ih run, List.append_assoc]

/-- A subscriber between the first chunk and the third. -/
def visit : List Action := [.publish [97], .subscribe, .publish [98], .cancel 0, .publish [99]]

end TermLinks.SessionStream
