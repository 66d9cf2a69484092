import Mathlib.Data.List.Induction
import TermLinks.Auth

namespace TermLinks.Auth

open Manager

variable {Digest : Type} [DecidableEq Digest]

abbrev History := List (Event × Reply)

/-- The call is a login of this client. -/
def Event.isLoginOf (clientID : String) (event : Event) : Bool :=
  match event.call with
  | .login client _ _ => client = clientID
  | _ => false

def Reply.isIssued : Reply → Bool
  | .issued _ _ => true
  | _ => false

/-- The times of the client's logins that were compared with the token, since the last that was right. -/
def tries (clientID : String) (times : List Int) (entry : Event × Reply) : List Int :=
  if entry.1.isLoginOf clientID then
    match entry.2 with
    | .rateLimited => times
    | .invalidCredentials => times ++ [entry.1.now]
    | _ => []
  else times

def triesOf (clientID : String) (past : History) : List Int := past.foldl (tries clientID) []

/-- The times of the client's logins in the minute up to `t` that were compared with the token. -/
def comparedIn (clientID : String) (t : Int) (past : History) : List Int :=
  (past.filter fun entry =>
    entry.1.isLoginOf clientID && entry.2 ≠ .rateLimited && t - minute < entry.1.now && entry.1.now ≤ t).map (·.1.now)

/-- No login of the client was successful in the minute up to `t`. -/
def Unsuccessful (clientID : String) (t : Int) (past : History) : Prop :=
  ∀ entry ∈ past, entry.1.isLoginOf clientID = true → t - minute < entry.1.now → entry.1.now ≤ t →
    entry.2.isIssued = false

/-- The session was issued by a successful login, has its time yet, and was not logged out since. -/
def Granted (sessionID : String) (t : Int) (past : History) : Prop :=
  ∃ before entry since, past = before ++ entry :: since ∧ entry.2 = .issued sessionID (entry.1.now + sessionDuration) ∧
    t < entry.1.now + sessionDuration ∧ ∀ later ∈ since, later.1.call ≠ .logout sessionID

/-- The sessions that are asked for or logged out, and those that are issued. -/
def mentioned (past : History) : List String :=
  past.filterMap fun entry =>
    match entry.1.call, entry.2 with
    | .valid sessionID, _ => some sessionID
    | .logout sessionID, _ => some sessionID
    | _, .issued sessionID _ => some sessionID
    | _, _ => none

section

variable {sha256 : String → Digest} {m : Manager Digest}

theorem history_append (before after : List Event) :
    history sha256 m (before ++ after) =
      history sha256 m before ++ history sha256 (Manager.after sha256 m before) after := by
  induction before generalizing m with
  | nil => rfl
  | cons event before ih =>
    rw [List.cons_append, history, ih, history, List.cons_append]
    rfl

theorem after_append (before after : List Event) :
    Manager.after sha256 m (before ++ after) = Manager.after sha256 (Manager.after sha256 m before) after :=
  List.foldl_append

theorem history_events (events : List Event) : (history sha256 m events).map Prod.fst = events := by
  induction events generalizing m with
  | nil => rfl
  | cons event events ih => rw [history, List.map_cons, ih]

theorem filter_prune {cutoff low : Int} (h : cutoff ≤ low) (attempts : List Int) :
    (prune cutoff attempts).filter (low < ·) = attempts.filter (low < ·) := by
  rw [prune_eq_filter, List.filter_filter]
  apply List.filter_congr
  intro attempt _
  by_cases recent : low < attempt
  · simp [recent, Int.lt_of_le_of_lt h recent]
  · simp [recent]

/-- What a login leaves of the attempts: those of the last minute, to which a wrong candidate adds one. -/
inductive LoginMove (sha256 : String → Digest) (m : Manager Digest) (now : Int) (clientID : String) :
    Reply × Manager Digest → Prop
  | limited {t : Manager Digest} (many : 5 ≤ ((m.attempts clientID).filter (now - minute < ·)).length)
      (sessions : t.sessions = (m.expire now).sessions)
      (attempts : ∀ id, t.attempts id = (m.attempts id).filter (now - minute < ·)) :
      LoginMove sha256 m now clientID (.rateLimited, t)
  | wrong {t : Manager Digest} (few : ((m.attempts clientID).filter (now - minute < ·)).length < 5)
      (sessions : t.sessions = (m.expire now).sessions)
      (own : t.attempts clientID = (m.attempts clientID).filter (now - minute < ·) ++ [now])
      (others : ∀ id ≠ clientID, t.attempts id = (m.attempts id).filter (now - minute < ·)) :
      LoginMove sha256 m now clientID (.invalidCredentials, t)
  | noRandom {t : Manager Digest} (few : ((m.attempts clientID).filter (now - minute < ·)).length < 5)
      (sessions : t.sessions = (m.expire now).sessions) (own : t.attempts clientID = [])
      (others : ∀ id ≠ clientID, t.attempts id = (m.attempts id).filter (now - minute < ·)) :
      LoginMove sha256 m now clientID (.noRandom, t)
  | issued {t : Manager Digest} {raw : Raw}
      (few : ((m.attempts clientID).filter (now - minute < ·)).length < 5)
      (sessions : t.sessions = Function.update (m.expire now).sessions (sha256 (Cloud.rawURLEncode raw.val))
        (some (now + sessionDuration)))
      (own : t.attempts clientID = [])
      (others : ∀ id ≠ clientID, t.attempts id = (m.attempts id).filter (now - minute < ·)) :
      LoginMove sha256 m now clientID (.issued (Cloud.rawURLEncode raw.val) (now + sessionDuration), t)

theorem login_moves (now : Int) (clientID candidate : String) (drawn : Option Raw) :
    LoginMove sha256 m now clientID (m.login sha256 now clientID candidate drawn) := by
  let pruned : String → List Int := fun id => prune (now - minute) ((m.expire now).attempts id)
  have once : ∀ id, pruned id = (m.attempts id).filter (now - minute < ·) := fun id => prune_eq_filter _ _
  have twice : prune (now - minute) (prune (now - minute) ((m.expire now).attempts clientID)) =
      (m.attempts clientID).filter (now - minute < ·) := by
    rw [prune_eq_filter, prune_eq_filter, List.filter_filter]
    simp [expire]
  have own : ∀ recent : List Int, Function.update pruned clientID recent clientID = recent :=
    fun recent => Function.update_self clientID recent pruned
  have others : ∀ (recent : List Int) (id : String), id ≠ clientID →
      Function.update pruned clientID recent id = (m.attempts id).filter (now - minute < ·) := by
    intro recent id other
    rw [Function.update_of_ne other, once]
  unfold Manager.login
  dsimp only
  rw [twice]
  split
  next many =>
    refine .limited many rfl fun id => ?_
    by_cases same : id = clientID
    · rw [same]
      exact own _
    · exact others _ id same
  next few =>
    have few : ((m.attempts clientID).filter (now - minute < ·)).length < 5 := Nat.lt_of_not_le few
    split
    next => exact .wrong few rfl (own _) (others _)
    next =>
      rw [Function.update_idem]
      split
      next => exact .noRandom few rfl (own _) (others _)
      next => exact .issued few rfl (own _) (others _)

/-- The reply to a login depends on the client's own attempts of the last minute only. -/
theorem login_reply (now : Int) (clientID candidate : String) (drawn : Option Raw) :
    (m.login sha256 now clientID candidate drawn).1 =
      if 5 ≤ ((m.attempts clientID).filter (now - minute < ·)).length then .rateLimited
      else if sha256 candidate ≠ m.token then .invalidCredentials
      else match drawn with
        | none => .noRandom
        | some raw => .issued (Cloud.rawURLEncode raw) (now + sessionDuration) := by
  have recent : prune (now - minute) (prune (now - minute) ((m.expire now).attempts clientID)) =
      (m.attempts clientID).filter (now - minute < ·) := by
    rw [prune_eq_filter, prune_eq_filter, List.filter_filter]
    simp [expire]
  unfold Manager.login
  dsimp only
  rw [recent]
  by_cases many : 5 ≤ ((m.attempts clientID).filter (now - minute < ·)).length
  · rw [if_pos many, if_pos many]
  · rw [if_neg many, if_neg many]
    by_cases wrong : sha256 candidate ≠ m.token
    · rw [if_pos wrong]
      exact congrArg Prod.fst (if_pos wrong)
    · rw [if_neg wrong]
      refine (congrArg Prod.fst (if_neg wrong)).trans ?_
      cases drawn with
      | none => rfl
      | some raw => rfl

theorem step_token (event : Event) : (m.step sha256 event).2.token = m.token := by
  obtain ⟨now, call⟩ := event
  cases call with
  | login clientID candidate drawn =>
    show (m.login sha256 now clientID candidate drawn).2.token = m.token
    unfold Manager.login
    dsimp only
    split
    next => rfl
    next =>
      split
      next => rfl
      next => cases drawn <;> rfl
  | valid sessionID =>
    show (m.valid sha256 now sessionID).2.token = m.token
    unfold Manager.valid
    split
    next => rfl
    next =>
      split
      next => split <;> rfl
      next => rfl
  | logout sessionID => rfl

theorem after_token (events : List Event) : (Manager.after sha256 m events).token = m.token := by
  induction events generalizing m with
  | nil => rfl
  | cons event events ih => exact ih.trans (step_token event)

theorem triesOf_append (clientID : String) (past : History) (entry : Event × Reply) :
    triesOf clientID (past ++ [entry]) = tries clientID (triesOf clientID past) entry := by
  rw [triesOf, List.foldl_append]
  rfl

/-- The kept attempts of every client are those of the history, as far back as any later login looks. -/
def Attempts (past : History) (m : Manager Digest) (low : Int) : Prop :=
  ∀ clientID t, low ≤ t →
    (m.attempts clientID).filter (t - minute < ·) = (triesOf clientID past).filter (t - minute < ·)

theorem filter_recent {now t : Int} (later : now ≤ t) (attempts : List Int) :
    (attempts.filter (now - minute < ·)).filter (t - minute < ·) = attempts.filter (t - minute < ·) := by
  rw [← prune_eq_filter (now - minute)]
  exact filter_prune (by omega) attempts

theorem attempts_login {past : History} {low now : Int} (h : Attempts past m low) (clock : low ≤ now)
    (clientID candidate : String) (drawn : Option Raw) :
    Attempts (past ++ [(⟨now, .login clientID candidate drawn⟩,
      (m.login sha256 now clientID candidate drawn).1)])
      (m.login sha256 now clientID candidate drawn).2 now := by
  intro id t later
  have before := h id t (by omega)
  have move := @login_moves _ _ sha256 m now clientID candidate drawn
  rw [triesOf_append]
  have foreign : ∀ reply, id ≠ clientID →
      tries id (triesOf id past) (⟨now, .login clientID candidate drawn⟩, reply) = triesOf id past := by
    intro reply other
    have isNot : Event.isLoginOf id ⟨now, .login clientID candidate drawn⟩ = false := by
      simp [Event.isLoginOf, Ne.symm other]
    rw [tries, isNot, if_neg Bool.false_ne_true]
  have same : Event.isLoginOf clientID ⟨now, .login clientID candidate drawn⟩ = true := by simp [Event.isLoginOf]
  generalize m.login sha256 now clientID candidate drawn = result at move ⊢
  cases move with
  | limited many sessions attempts =>
    rw [attempts, filter_recent later, before]
    by_cases own : id = clientID
    · subst own
      rw [tries, same, if_pos rfl]
    · rw [foreign _ own]
  | wrong few sessions own others =>
    by_cases mine : id = clientID
    · subst mine
      rw [own, tries, same, if_pos rfl, List.filter_append, List.filter_append, filter_recent later, before]
    · rw [others _ mine, filter_recent later, foreign _ mine, before]
  | noRandom few sessions own others =>
    by_cases mine : id = clientID
    · subst mine
      rw [own, tries, same, if_pos rfl]
    · rw [others _ mine, filter_recent later, foreign _ mine, before]
  | issued few sessions own others =>
    by_cases mine : id = clientID
    · subst mine
      rw [own, tries, same, if_pos rfl]
    · rw [others _ mine, filter_recent later, foreign _ mine, before]

theorem valid_attempts (now : Int) (sessionID : String) :
    (m.valid sha256 now sessionID).2.attempts = m.attempts := by
  unfold Manager.valid
  split
  next => rfl
  next =>
    split
    next => split <;> rfl
    next => rfl

theorem attempts_step {past : History} {low : Int} {event : Event} (h : Attempts past m low)
    (clock : low ≤ event.now) :
    Attempts (past ++ [(event, (m.step sha256 event).1)]) (m.step sha256 event).2 event.now := by
  obtain ⟨now, call⟩ := event
  cases call with
  | login clientID candidate drawn => exact attempts_login h clock clientID candidate drawn
  | valid sessionID =>
    intro id t later
    rw [triesOf_append]
    have before := h id t (Int.le_trans clock later)
    have kept : (m.step sha256 ⟨now, .valid sessionID⟩).2.attempts = m.attempts := valid_attempts now sessionID
    rw [kept, before]
    rfl
  | logout sessionID =>
    intro id t later
    rw [triesOf_append]
    exact h id t (Int.le_trans clock later)

theorem history_snoc (events : List Event) (event : Event) :
    history sha256 m (events ++ [event]) =
      history sha256 m events ++ [(event, ((Manager.after sha256 m events).step sha256 event).1)] := by
  rw [history_append]
  rfl

theorem after_snoc (events : List Event) (event : Event) :
    Manager.after sha256 m (events ++ [event]) = ((Manager.after sha256 m events).step sha256 event).2 := by
  rw [after_append]
  rfl

theorem mem_history_event {events : List Event} {entry : Event × Reply} (h : entry ∈ history sha256 m events) :
    entry.1 ∈ events := by
  have named := List.mem_map_of_mem h (f := Prod.fst)
  rwa [history_events] at named

/-- No time of the history is later than `low`. -/
def Until (low : Int) (past : History) : Prop := ∀ entry ∈ past, entry.1.now ≤ low

theorem attempts_run {token : String} {events : List Event} (clock : events.Pairwise fun a b => a.now ≤ b.now)
    {low : Int} (bound : ∀ event ∈ events, event.now ≤ low) :
    Attempts (history sha256 (Manager.new sha256 token) events)
      (Manager.after sha256 (Manager.new sha256 token) events) low := by
  induction events using List.reverseRecOn generalizing low with
  | nil =>
    intro clientID t _
    rfl
  | append_singleton events event ih =>
    obtain ⟨clock, _, ordered⟩ := List.pairwise_append.mp clock
    have before := ih clock fun earlier mem => ordered earlier mem event (List.mem_singleton_self event)
    have now := @attempts_step _ _ sha256 _ _ _ event before (Int.le_refl event.now)
    rw [history_snoc, after_snoc]
    intro clientID t later
    exact now clientID t (Int.le_trans (bound event (by simp)) later)

theorem comparedIn_append (clientID : String) (t : Int) (past : History) (entry : Event × Reply) :
    comparedIn clientID t (past ++ [entry]) = comparedIn clientID t past ++ comparedIn clientID t
      [entry] := by
  rw [comparedIn, List.filter_append, List.map_append]
  rfl

theorem comparedIn_before {clientID : String} {t : Int} {past : History} (old : Until (t - minute) past) :
    comparedIn clientID t past = [] := by
  rw [comparedIn, List.map_eq_nil_iff, List.filter_eq_nil_iff]
  intro entry mem
  have early := old entry mem
  have outside : ¬t - minute < entry.1.now := by omega
  simp [outside]

theorem unsuccessful_left {clientID : String} {t : Int} {past : History} {entry : Event × Reply}
    (h : Unsuccessful clientID t (past ++ [entry])) : Unsuccessful clientID t past :=
  fun earlier mem => h earlier (List.mem_append_left _ mem)

theorem triesOf_until {clientID : String} {low : Int} {past : History} (old : Until low past) :
    ∀ time ∈ triesOf clientID past, time ≤ low := by
  induction past using List.reverseRecOn with
  | nil => simp [triesOf]
  | append_singleton past entry ih =>
    have before := ih fun earlier mem => old earlier (List.mem_append_left _ mem)
    have last := old entry (by simp)
    rw [triesOf_append]
    intro time mem
    unfold tries at mem
    split at mem
    next =>
      split at mem
      next => exact before time mem
      next =>
        obtain earlier | same := List.mem_append.mp mem
        · exact before time earlier
        · rw [List.mem_singleton.mp same]
          exact last
      next => exact absurd mem List.not_mem_nil
    next => exact before time mem

/-- The random source answers when it is asked. -/
def Event.hasRandom (event : Event) : Prop :=
  match event.call with
  | .login _ _ drawn => drawn.isSome
  | _ => True

/-- A login is turned away before its candidate is looked at, or answers the comparison. -/
theorem login_answers {clientID : String} {event : Event} (login : event.isLoginOf clientID = true)
    (random : event.hasRandom) :
    (m.step sha256 event).1 = .rateLimited ∧
        5 ≤ ((m.attempts clientID).filter (event.now - minute < ·)).length ∨
      (m.step sha256 event).1 = .invalidCredentials ∧
        ((m.attempts clientID).filter (event.now - minute < ·)).length < 5 ∨
      (m.step sha256 event).1.isIssued = true := by
  obtain ⟨now, call⟩ := event
  cases call with
  | login client candidate drawn =>
    obtain rfl : client = clientID := by simpa [Event.isLoginOf] using login
    obtain ⟨raw, rfl⟩ := Option.isSome_iff_exists.mp random
    have reply := @login_reply _ _ sha256 m now client candidate (some raw)
    show (m.login sha256 now client candidate (some raw)).1 = _ ∧ _ ∨
      (m.login sha256 now client candidate (some raw)).1 = _ ∧ _ ∨
      (m.login sha256 now client candidate (some raw)).1.isIssued = true
    by_cases many : 5 ≤ ((m.attempts client).filter (now - minute < ·)).length
    · rw [if_pos many] at reply
      exact .inl ⟨reply, many⟩
    · rw [if_neg many] at reply
      by_cases wrong : sha256 candidate ≠ m.token
      · rw [if_pos wrong] at reply
        exact .inr (.inl ⟨reply, Nat.lt_of_not_le many⟩)
      · rw [if_neg wrong] at reply
        exact .inr (.inr (by rw [reply]; rfl))
  | valid sessionID => exact nomatch login
  | logout sessionID => exact nomatch login

/-- While no login succeeds, the attempts that still count are the compared ones. -/
theorem compared_eq_tries {clientID token : String} {t : Int} {events : List Event}
    (clock : events.Pairwise fun a b => a.now ≤ b.now) (random : ∀ event ∈ events, event.hasRandom)
    (bound : ∀ event ∈ events, event.now ≤ t)
    (failed : Unsuccessful clientID t (history sha256 (Manager.new sha256 token) events)) :
    comparedIn clientID t (history sha256 (Manager.new sha256 token) events) =
      (triesOf clientID (history sha256 (Manager.new sha256 token) events)).filter (t - minute < ·) := by
  induction events using List.reverseRecOn with
  | nil => rfl
  | append_singleton events event ih =>
    obtain ⟨earlier, _, ordered⟩ := List.pairwise_append.mp clock
    have early : ∀ old ∈ events, old.now ≤ event.now :=
      fun old mem => ordered old mem event (List.mem_singleton_self event)
    have last := bound event (by simp)
    have answers := fun login => @login_answers _ _ sha256 (Manager.after sha256 (Manager.new sha256 token) events)
      clientID event login (random event (by simp))
    rw [history_snoc] at failed ⊢
    have before := ih earlier (fun old mem => random old (List.mem_append_left _ mem))
      (fun old mem => bound old (List.mem_append_left _ mem)) (unsuccessful_left failed)
    have still := failed _ (List.mem_append_right _ (List.mem_singleton_self _))
    by_cases outside : event.now ≤ t - minute
    · have old : Until (t - minute) (history sha256 (Manager.new sha256 token) events ++
          [(event, ((Manager.after sha256 (Manager.new sha256 token) events).step sha256 event).1)]) := by
        intro entry mem
        obtain mem | mem := List.mem_append.mp mem
        · exact Int.le_trans (early _ (mem_history_event mem)) outside
        · rw [List.mem_singleton.mp mem]
          exact outside
      rw [comparedIn_before old, eq_comm, List.filter_eq_nil_iff]
      intro time mem
      have past := triesOf_until old time mem
      simpa using past
    · rw [comparedIn_append, triesOf_append, before]
      generalize ((Manager.after sha256 (Manager.new sha256 token) events).step sha256 event).1 =
        reply at answers still ⊢
      by_cases login : event.isLoginOf clientID = true
      · obtain ⟨rfl, _⟩ | ⟨rfl, _⟩ | issued := answers login
        · simp [comparedIn, tries, login]
        · have recent : t - minute < event.now := by omega
          simp [comparedIn, tries, login, recent, last, List.filter_append]
        · have recent : t - minute < event.now := by omega
          have none := still login recent last
          exact absurd (issued.symm.trans none) (by decide)
      · simp [comparedIn, tries, login]

/-- In the minute up to any instant, at most five logins of a client are compared if none of them is right. -/
theorem compared_at_most_five {clientID token : String} {t : Int} {events : List Event}
    (clock : events.Pairwise fun a b => a.now ≤ b.now) (random : ∀ event ∈ events, event.hasRandom)
    (failed : Unsuccessful clientID t (history sha256 (Manager.new sha256 token) events)) :
    (comparedIn clientID t (history sha256 (Manager.new sha256 token) events)).length ≤ 5 := by
  induction events using List.reverseRecOn with
  | nil => exact Nat.zero_le 5
  | append_singleton events event ih =>
    obtain ⟨earlier, _, ordered⟩ := List.pairwise_append.mp clock
    have early : ∀ old ∈ events, old.now ≤ event.now :=
      fun old mem => ordered old mem event (List.mem_singleton_self event)
    have random' : ∀ old ∈ events, old.hasRandom := fun old mem => random old (List.mem_append_left _ mem)
    have attempts := @attempts_run _ _ sha256 token events earlier event.now early clientID event.now (Int.le_refl _)
    have answers := fun login => @login_answers _ _ sha256 (Manager.after sha256 (Manager.new sha256 token) events)
      clientID event login (random event (by simp))
    rw [history_snoc] at failed ⊢
    have before := ih earlier random' (unsuccessful_left failed)
    have still := failed _ (List.mem_append_right _ (List.mem_singleton_self _))
    rw [comparedIn_append, List.length_append]
    rw [attempts] at answers
    by_cases login : event.isLoginOf clientID = true
    · by_cases inside : t - minute < event.now ∧ event.now ≤ t
      · have tried := compared_eq_tries earlier random'
          (fun old mem => Int.le_trans (early old mem) inside.2) (unsuccessful_left failed)
        have fewer : (comparedIn clientID t (history sha256 (Manager.new sha256 token) events)).length ≤
            ((triesOf clientID (history sha256 (Manager.new sha256 token) events)).filter
              (event.now - minute < ·)).length := by
          rw [tried]
          apply List.Sublist.length_le
          apply List.monotone_filter_right
          intro time recent
          have recent : t - minute < time := of_decide_eq_true recent
          exact decide_eq_true (by omega)
        generalize ((Manager.after sha256 (Manager.new sha256 token) events).step sha256 event).1 =
          reply at answers still ⊢
        obtain ⟨rfl, _⟩ | ⟨rfl, few⟩ | issued := answers login
        · simpa [comparedIn] using before
        · have one : comparedIn clientID t [(event, Reply.invalidCredentials)] = [event.now] := by
            simp [comparedIn, login, inside.1, inside.2]
          rw [one, List.length_singleton]
          omega
        · have none := still login inside.1 inside.2
          exact absurd (issued.symm.trans none) (by decide)
      · have outside : ∀ reply, comparedIn clientID t [(event, reply)] = [] := by
          intro reply
          simp only [comparedIn, List.map_eq_nil_iff, List.filter_eq_nil_iff, List.mem_singleton]
          rintro _ rfl
          simp only [Bool.and_eq_true, decide_eq_true_eq]
          omega
        rw [outside]
        simpa using before
    · have other : ∀ reply, comparedIn clientID t [(event, reply)] = [] := by
        intro reply
        simp [comparedIn, login]
      rw [other]
      simpa using before

end

end TermLinks.Auth
