import Mathlib.Data.Set.Function
import TermLinks.AuthHistory

namespace TermLinks.Auth

open Manager

variable {Digest : Type} [DecidableEq Digest] {sha256 : String → Digest} {m : Manager Digest}

/-- The session under this digest has its time yet. -/
def Live (m : Manager Digest) (digest : Digest) (t : Int) : Prop :=
  ∃ expires, m.sessions digest = some expires ∧ t < expires

omit [DecidableEq Digest] in
theorem live_expire {now t : Int} (later : now ≤ t) (digest : Digest) :
    Live (m.expire now) digest t ↔ Live m digest t := by
  constructor
  · rintro ⟨expires, found, open'⟩
    exact ⟨expires, (Option.filter_eq_some_iff.mp found).1, open'⟩
  · rintro ⟨expires, found, open'⟩
    have unexpired : now < expires := by omega
    exact ⟨expires, Option.filter_eq_some_iff.mpr ⟨found, decide_eq_true unexpired⟩, open'⟩

omit [DecidableEq Digest] in
theorem live_congr {other : Manager Digest} {digest : Digest} {t : Int}
    (h : m.sessions digest = other.sessions digest) : Live m digest t ↔ Live other digest t := by
  rw [Live, Live, h]

theorem remove_sessions (sessionID : String) (digest : Digest) :
    (m.remove sha256 sessionID).sessions digest =
      if digest = sha256 sessionID then none else m.sessions digest :=
  Function.update_apply m.sessions (sha256 sessionID) none digest

theorem live_remove {t : Int} {sessionID : String} {digest : Digest} (other : digest ≠ sha256 sessionID) :
    Live (m.remove sha256 sessionID) digest t ↔ Live m digest t :=
  live_congr (by rw [remove_sessions, if_neg other])

theorem not_live_removed {t : Int} {sessionID : String} :
    ¬Live (m.remove sha256 sessionID) (sha256 sessionID) t := by
  rintro ⟨expires, found, _⟩
  rw [remove_sessions, if_pos rfl] at found
  exact nomatch found

theorem granted_snoc {sessionID : String} {t : Int} {past : History} {entry : Event × Reply} :
    Granted sessionID t (past ++ [entry]) ↔
      entry.2 = .issued sessionID (entry.1.now + sessionDuration) ∧ t < entry.1.now + sessionDuration ∨
      Granted sessionID t past ∧ entry.1.call ≠ .logout sessionID := by
  constructor
  · rintro ⟨before, issue, since, split, issued, unexpired, kept⟩
    obtain rfl | ⟨since, last, rfl⟩ := List.eq_nil_or_concat since
    · obtain ⟨_, same⟩ := List.append_inj' split rfl
      obtain rfl : entry = issue := List.singleton_inj.mp same
      exact .inl ⟨issued, unexpired⟩
    · rw [List.concat_eq_append, ← List.cons_append, ← List.append_assoc] at split
      obtain ⟨rfl, same⟩ := List.append_inj' split rfl
      obtain rfl : entry = last := List.singleton_inj.mp same
      refine .inr ⟨⟨before, issue, since, rfl, issued, unexpired, fun later mem => ?_⟩, ?_⟩
      · exact kept later (by simp [mem])
      · exact kept entry (by simp)
  · rintro (⟨issued, unexpired⟩ | ⟨⟨before, issue, since, rfl, issued, unexpired, kept⟩, kept'⟩)
    · exact ⟨past, entry, [], rfl, issued, unexpired, fun later mem => absurd mem List.not_mem_nil⟩
    · refine ⟨before, issue, since ++ [entry], by simp, issued, unexpired, fun later mem => ?_⟩
      obtain mem | mem := List.mem_append.mp mem
      · exact kept later mem
      · rw [List.mem_singleton.mp mem]
        exact kept'

theorem granted_before {sessionID : String} {t low : Int} {past : History} (old : Until low past)
    (h : Granted sessionID t past) : t < low + sessionDuration := by
  obtain ⟨before, issue, since, rfl, _, unexpired, _⟩ := h
  have early := old issue (by simp)
  omega

/-- On these ids the sessions kept are those that the history grants. -/
def Sessions (sha256 : String → Digest) (ids : Set String) (past : History) (m : Manager Digest)
    (low : Int) : Prop :=
  ∀ id ∈ ids, ∀ t, low ≤ t → (Live m (sha256 id) t ↔ Granted id t past)

theorem sessions_login {ids : Set String} {past : History} {low now : Int}
    (collisionFree : Set.InjOn sha256 ids)
    (h : Sessions sha256 ids past m low) (old : Until low past) (clock : low ≤ now)
    (clientID candidate : String) (drawn : Option Raw) (named : ∀ sessionID expires,
      (m.login sha256 now clientID candidate drawn).1 = .issued sessionID expires → sessionID ∈ ids) :
    Sessions sha256 ids (past ++
      [(⟨now, .login clientID candidate drawn⟩, (m.login sha256 now clientID candidate drawn).1)])
      (m.login sha256 now clientID candidate drawn).2 now := by
  intro id mem t later
  have before := h id mem t (by omega)
  have kept : ∀ {next : Manager Digest}, next.sessions = (m.expire now).sessions →
      (Live next (sha256 id) t ↔ Granted id t past) :=
    fun same => (live_congr (congrFun same _)).trans ((live_expire later _).trans before)
  have move := @login_moves _ _ sha256 m now clientID candidate drawn
  rw [granted_snoc]
  generalize m.login sha256 now clientID candidate drawn = result at move named ⊢
  cases move with
  | limited many sessions attempts => simpa using kept sessions
  | wrong few sessions own others => simpa using kept sessions
  | noRandom few sessions own others => simpa using kept sessions
  | @issued next raw few sessions own others =>
    have issuedNamed := named _ _ rfl
    by_cases same : id = Cloud.rawURLEncode raw.val
    · subst same
      have found : next.sessions (sha256 (Cloud.rawURLEncode raw.val)) = some (now + sessionDuration) := by
        rw [sessions, Function.update_apply, if_pos rfl]
      constructor
      · rintro ⟨expires, held, unexpired⟩
        cases Option.some.inj (found.symm.trans held)
        exact .inl ⟨rfl, unexpired⟩
      · rintro (⟨_, unexpired⟩ | ⟨granted, _⟩)
        · exact ⟨_, found, unexpired⟩
        · have unexpired := granted_before old granted
          exact ⟨_, found, by omega⟩
    · have apart : sha256 id ≠ sha256 (Cloud.rawURLEncode raw.val) :=
        fun collision => same (collisionFree mem issuedNamed collision)
      have untouched : next.sessions (sha256 id) = (m.expire now).sessions (sha256 id) := by
        rw [sessions, Function.update_apply, if_neg apart]
      rw [live_congr untouched, live_expire later, before]
      simp [Ne.symm same]

theorem valid_sessions {now : Int} {sessionID : String} :
    (m.valid sha256 now sessionID).2 = m ∨
      (m.valid sha256 now sessionID).2 = m.remove sha256 sessionID ∧ ¬Live m (sha256 sessionID) now := by
  unfold Manager.valid
  split
  next => exact .inl rfl
  next =>
    split
    next expires found =>
      split
      next => exact .inl rfl
      next past =>
        refine .inr ⟨rfl, ?_⟩
        rintro ⟨other, held, unexpired⟩
        cases Option.some.inj (found.symm.trans held)
        exact past unexpired
    next absent =>
      refine .inr ⟨rfl, ?_⟩
      rintro ⟨other, held, _⟩
      exact nomatch absent.symm.trans held

theorem sessions_step {ids : Set String} {past : History} {low : Int} {event : Event}
    (collisionFree : Set.InjOn sha256 ids) (h : Sessions sha256 ids past m low) (old : Until low past)
    (clock : low ≤ event.now)
    (named : ∀ sessionID ∈ mentioned [(event, (m.step sha256 event).1)], sessionID ∈ ids) :
    Sessions sha256 ids (past ++ [(event, (m.step sha256 event).1)]) (m.step sha256 event).2 event.now := by
  obtain ⟨now, call⟩ := event
  cases call with
  | login clientID candidate drawn =>
    apply sessions_login collisionFree h old clock
    intro sessionID expires issued
    have issued : (m.step sha256 ⟨now, .login clientID candidate drawn⟩).1 = .issued sessionID expires := issued
    apply named sessionID
    rw [issued]
    simp [mentioned]
  | valid sessionID =>
    intro id mem t later
    have before := h id mem t (Int.le_trans clock later)
    rw [granted_snoc]
    have asked : (m.step sha256 ⟨now, .valid sessionID⟩).1 = .valid (m.valid sha256 now sessionID).1 := rfl
    have next : (m.step sha256 ⟨now, .valid sessionID⟩).2 = (m.valid sha256 now sessionID).2 := rfl
    have kept : Live (m.valid sha256 now sessionID).2 (sha256 id) t ↔ Live m (sha256 id) t := by
      obtain same | ⟨removed, dead⟩ := @valid_sessions _ _ sha256 m now sessionID
      · rw [same]
      · rw [removed]
        by_cases here : sha256 id = sha256 sessionID
        · rw [here]
          refine iff_of_false not_live_removed fun live => dead ?_
          obtain ⟨expires, found, unexpired⟩ := live
          exact ⟨expires, found, Int.lt_of_le_of_lt later unexpired⟩
        · exact live_remove here
    rw [next, kept, before, asked]
    simp
  | logout sessionID =>
    intro id mem t later
    have before := h id mem t (Int.le_trans clock later)
    have next : (m.step sha256 ⟨now, .logout sessionID⟩).2 = m.remove sha256 sessionID := rfl
    have out : (m.step sha256 ⟨now, .logout sessionID⟩).1 = .loggedOut := rfl
    rw [granted_snoc, next, out]
    by_cases same : id = sessionID
    · subst same
      simp [not_live_removed]
    · have here : sessionID ∈ ids := named sessionID (by simp [mentioned])
      have apart : sha256 id ≠ sha256 sessionID := fun collision => same (collisionFree mem here collision)
      rw [live_remove apart, before]
      simp [Ne.symm same]

theorem mentioned_append (before after : History) :
    mentioned (before ++ after) = mentioned before ++ mentioned after :=
  List.filterMap_append

theorem sessions_run {token : String} {ids : Set String} {events : List Event}
    (collisionFree : Set.InjOn sha256 ids)
    (named : ∀ id ∈ mentioned (history sha256 (Manager.new sha256 token) events), id ∈ ids)
    (clock : events.Pairwise fun a b => a.now ≤ b.now) {low : Int} (bound : ∀ event ∈ events, event.now ≤ low) :
    Sessions sha256 ids (history sha256 (Manager.new sha256 token) events)
      (Manager.after sha256 (Manager.new sha256 token) events) low := by
  induction events using List.reverseRecOn generalizing low with
  | nil =>
    intro id _ t _
    refine iff_of_false ?_ ?_
    · rintro ⟨_, found, _⟩
      exact nomatch found
    · rintro ⟨before, entry, since, split, _⟩
      exact absurd split.symm (by simp [history])
  | append_singleton events event ih =>
    obtain ⟨clock, _, ordered⟩ := List.pairwise_append.mp clock
    have early : ∀ old ∈ events, old.now ≤ event.now :=
      fun old mem => ordered old mem event (List.mem_singleton_self event)
    rw [history_snoc, mentioned_append] at named
    have before := ih (fun id mem => named id (List.mem_append_left _ mem)) clock early
    have old : Until event.now (history sha256 (Manager.new sha256 token) events) :=
      fun entry mem => early _ (mem_history_event mem)
    have now := sessions_step collisionFree before old (Int.le_refl event.now)
      (fun id mem => named id (List.mem_append_right _ mem))
    rw [history_snoc, after_snoc]
    intro id mem t later
    exact now id mem t (Int.le_trans (bound event (by simp)) later)

/-- No issued session is the empty text, which `Valid` refuses at once. -/
theorem issued_ne_empty {events : List Event} {event : Event} {sessionID : String} {expires : Int}
    (h : (event, Reply.issued sessionID expires) ∈ history sha256 m events) : sessionID ≠ "" := by
  induction events generalizing m with
  | nil => exact absurd h List.not_mem_nil
  | cons first events ih =>
    obtain here | later := List.mem_cons.mp h
    · obtain ⟨rfl, reply⟩ := Prod.mk.inj here
      obtain ⟨now, call⟩ := event
      cases call with
      | login clientID candidate drawn =>
        have move := @login_moves _ _ sha256 m now clientID candidate drawn
        have reply : Reply.issued sessionID expires = (m.login sha256 now clientID candidate drawn).1 := reply
        generalize m.login sha256 now clientID candidate drawn = result at move reply
        cases move with
        | limited => exact nomatch reply
        | wrong => exact nomatch reply
        | noRandom => exact nomatch reply
        | @issued next raw =>
          cases reply
          intro empty
          have length := Cloud.length_rawURLEncode raw.val
          rw [empty, raw.property] at length
          exact absurd length (by decide)
      | valid sessionID => exact nomatch reply
      | logout sessionID => exact nomatch reply
    · exact ih later

theorem valid_live {now : Int} {sessionID : String} :
    (m.valid sha256 now sessionID).1 = true ↔ sessionID ≠ "" ∧ Live m (sha256 sessionID) now := by
  unfold Manager.valid
  split
  next empty => simp [empty]
  next given =>
    split
    next expires found =>
      split
      next unexpired => exact iff_of_true rfl ⟨given, expires, found, unexpired⟩
      next past =>
        refine iff_of_false Bool.false_ne_true ?_
        rintro ⟨_, other, held, unexpired⟩
        cases Option.some.inj (found.symm.trans held)
        exact past unexpired
    next absent =>
      refine iff_of_false Bool.false_ne_true ?_
      rintro ⟨_, other, held, _⟩
      exact nomatch absent.symm.trans held

theorem valid_granted {token : String} {ids : Set String} {events : List Event}
    (collisionFree : Set.InjOn sha256 ids)
    (named : ∀ id ∈ mentioned (history sha256 (Manager.new sha256 token) events), id ∈ ids)
    (clock : events.Pairwise fun a b => a.now ≤ b.now) {now : Int} (bound : ∀ event ∈ events, event.now ≤ now)
    {sessionID : String} (asked : sessionID ∈ ids) :
    ((Manager.after sha256 (Manager.new sha256 token) events).valid sha256 now sessionID).1 = true ↔
      Granted sessionID now (history sha256 (Manager.new sha256 token) events) := by
  have kept := sessions_run collisionFree named clock bound sessionID asked now (Int.le_refl now)
  rw [valid_live, kept]
  constructor
  · exact fun ⟨_, granted⟩ => granted
  · intro granted
    refine ⟨?_, granted⟩
    obtain ⟨before, ⟨event, reply⟩, since, split, issued, _⟩ := granted
    refine @issued_ne_empty _ _ sha256 (Manager.new sha256 token) events event sessionID
      (event.now + sessionDuration) ?_
    rw [split, ← show reply = _ from issued]
    exact List.mem_append_right _ List.mem_cons_self

theorem triesOf_own (clientID : String) (past : History) :
    triesOf clientID (past.filter (·.1.isLoginOf clientID)) = triesOf clientID past := by
  induction past using List.reverseRecOn with
  | nil => rfl
  | append_singleton past entry ih =>
    rw [List.filter_append, triesOf_append]
    by_cases own : entry.1.isLoginOf clientID = true
    · have single : [entry].filter (·.1.isLoginOf clientID) = [entry] := by simp [own]
      rw [single, triesOf_append, ih]
    · have nobody : [entry].filter (·.1.isLoginOf clientID) = [] := by simp [own]
      rw [nobody, List.append_nil, ih, tries, if_neg own]

/-- What a client's logins get is what they would get if nobody else called. -/
theorem own_logins {token : String} (clientID : String) {events : List Event}
    (clock : events.Pairwise fun a b => a.now ≤ b.now) :
    (history sha256 (Manager.new sha256 token) events).filter (·.1.isLoginOf clientID) =
      history sha256 (Manager.new sha256 token) (events.filter (·.isLoginOf clientID)) := by
  induction events using List.reverseRecOn with
  | nil => rfl
  | append_singleton events event ih =>
    obtain ⟨earlier, _, ordered⟩ := List.pairwise_append.mp clock
    have early : ∀ old ∈ events, old.now ≤ event.now :=
      fun old mem => ordered old mem event (List.mem_singleton_self event)
    rw [history_snoc, List.filter_append, List.filter_append, ih earlier]
    by_cases own : event.isLoginOf clientID = true
    · have single : [event].filter (·.isLoginOf clientID) = [event] := by simp [own]
      have answered : ∀ reply : Reply, [(event, reply)].filter (·.1.isLoginOf clientID) = [(event, reply)] := by
        simp [own]
      rw [single, answered, history_snoc]
      have all := @attempts_run _ _ sha256 token events earlier event.now early clientID event.now (Int.le_refl _)
      have alone := @attempts_run _ _ sha256 token (events.filter (·.isLoginOf clientID))
        (earlier.sublist List.filter_sublist) event.now (fun old mem => early old (List.mem_of_mem_filter mem))
        clientID event.now (Int.le_refl _)
      rw [← ih earlier, triesOf_own, ← all] at alone
      obtain ⟨now, call⟩ := event
      cases call with
      | login client candidate drawn =>
        obtain rfl : client = clientID := by simpa [Event.isLoginOf] using own
        have same : ∀ m : Manager Digest, (m.step sha256 ⟨now, .login client candidate drawn⟩).1 =
            (m.login sha256 now client candidate drawn).1 := fun _ => rfl
        rw [same, same, login_reply, login_reply, alone, after_token, after_token]
      | valid sessionID => cases own
      | logout sessionID => cases own
    · have nobody : [event].filter (·.isLoginOf clientID) = [] := by simp [own]
      have unanswered : ∀ reply : Reply, [(event, reply)].filter (·.1.isLoginOf clientID) = [] := by simp [own]
      rw [nobody, unanswered, List.append_nil, List.append_nil]

/-- Whatever candidate the client offers, it is turned away, and the sessions that have their time yet stay. -/
structure TurnedAway (sha256 : String → Digest) (m : Manager Digest) (now : Int)
    (clientID : String) : Prop where
  unseen : ∀ candidate drawn, (m.login sha256 now clientID candidate drawn).1 = .rateLimited
  kept : ∀ candidate drawn, (m.login sha256 now clientID candidate drawn).2.sessions = (m.expire now).sessions

theorem turned_away {now : Int} {clientID : String}
    (many : 5 ≤ ((m.attempts clientID).filter (now - minute < ·)).length) :
    TurnedAway sha256 m now clientID := by
  have limited : ∀ candidate drawn, (m.login sha256 now clientID candidate drawn).1 = .rateLimited := by
    intro candidate drawn
    rw [login_reply, if_pos many]
  refine ⟨limited, fun candidate drawn => ?_⟩
  have reply := limited candidate drawn
  have move := @login_moves _ _ sha256 m now clientID candidate drawn
  generalize m.login sha256 now clientID candidate drawn = result at move reply ⊢
  cases move with
  | limited _ sessions _ => exact sessions
  | wrong => exact nomatch reply
  | noRandom => exact nomatch reply
  | issued => exact nomatch reply

theorem login_outcome {token : String} {events : List Event} {now : Int} {clientID candidate : String}
    {drawn : Option Raw} (random : drawn.isSome) :
    TurnedAway sha256 (Manager.after sha256 (Manager.new sha256 token) events) now clientID ∨
      if sha256 candidate = sha256 token then
        ((Manager.after sha256 (Manager.new sha256 token) events).login sha256 now clientID
          candidate drawn).1.isIssued
      else ((Manager.after sha256 (Manager.new sha256 token) events).login sha256 now clientID
        candidate drawn).1 =
        .invalidCredentials := by
  obtain ⟨raw, rfl⟩ := Option.isSome_iff_exists.mp random
  have kept : (Manager.after sha256 (Manager.new sha256 token) events).token = sha256 token := after_token events
  generalize Manager.after sha256 (Manager.new sha256 token) events = m at kept ⊢
  by_cases many : 5 ≤ ((m.attempts clientID).filter (now - minute < ·)).length
  · exact .inl (turned_away many)
  · rw [login_reply, if_neg many, kept]
    by_cases right : sha256 candidate = sha256 token
    · rw [if_pos right, if_neg (not_not_intro right)]
      exact .inr rfl
    · rw [if_neg right, if_pos right]
      exact .inr rfl

/-- In any minute in which none of its logins succeeds, at most five candidates of a client are compared and the
others are turned away, whoever else calls; and a session is valid from the login that issued it until its
time has come or it is logged out. -/
theorem manager_meets_history (sha256 : String → Digest) (token : String) (events : List Event)
    (clock : events.Pairwise fun a b => a.now ≤ b.now) (random : ∀ event ∈ events, event.hasRandom)
    (collisionFree : Set.InjOn sha256
      {id | id ∈ mentioned (history sha256 (Manager.new sha256 token) events)}) :
    (∀ clientID t, Unsuccessful clientID t (history sha256 (Manager.new sha256 token) events) →
      (comparedIn clientID t (history sha256 (Manager.new sha256 token) events)).length ≤ 5) ∧
    (∀ before now clientID candidate drawn after, events = before ++
      ⟨now, .login clientID candidate drawn⟩ :: after →
      TurnedAway sha256 (Manager.after sha256 (Manager.new sha256 token) before) now clientID ∨
        if sha256 candidate = sha256 token then
          ((Manager.after sha256 (Manager.new sha256 token) before).login sha256 now clientID
            candidate drawn).1.isIssued
        else ((Manager.after sha256 (Manager.new sha256 token) before).login sha256 now clientID
          candidate drawn).1 =
          .invalidCredentials) ∧
    (∀ clientID, (history sha256 (Manager.new sha256 token) events).filter (·.1.isLoginOf clientID) =
      history sha256 (Manager.new sha256 token) (events.filter (·.isLoginOf clientID))) ∧
    ∀ before now sessionID after, events = before ++ ⟨now, .valid sessionID⟩ :: after →
      (((Manager.after sha256 (Manager.new sha256 token) before).valid sha256 now sessionID).1 = true ↔
        Granted sessionID now (history sha256 (Manager.new sha256 token) before)) := by
  refine ⟨fun clientID t failed => compared_at_most_five clock random failed, ?_, fun clientID =>
    own_logins clientID clock, ?_⟩
  · rintro before now clientID candidate drawn after rfl
    have here : (⟨now, .login clientID candidate drawn⟩ : Event).hasRandom := random _ (by simp)
    exact login_outcome here
  · rintro before now sessionID after rfl
    obtain ⟨earlier, _, ordered⟩ := List.pairwise_append.mp clock
    rw [history_append, mentioned_append] at collisionFree
    refine valid_granted collisionFree (fun id mem => List.mem_append_left _ mem) earlier
      (fun old mem => ordered old mem _ List.mem_cons_self) ?_
    exact List.mem_append_right _ (by simp [mentioned, history])

def zeros : Raw := ⟨List.replicate 32 0, by decide⟩

def zerosID : String := "AAAAAAAAAAAAAAAAAAAAAAAAAAAAAAAAAAAAAAAAAAA"

def guesses (count : Nat) : List Event :=
  (List.range count).map fun i => ⟨i, .login "eve" "guess" (some zeros)⟩

/-- Six wrong candidates of one client in a minute, the right one of another, and its session until its end. -/
def guessing : List Event :=
  guesses 6 ++ [⟨6, .login "ann" "secret" (some zeros)⟩, ⟨7, .valid zerosID⟩, ⟨8, .logout zerosID⟩, ⟨9, .valid zerosID⟩]

theorem guessing_random : ∀ event ∈ guessing, event.hasRandom := by
  intro event mem
  obtain guess | mem := List.mem_append.mp mem
  · obtain ⟨i, -, rfl⟩ := List.mem_map.mp guess
    rfl
  · simp only [List.mem_cons, List.not_mem_nil, or_false] at mem
    obtain rfl | rfl | rfl | rfl := mem
    · rfl
    · trivial
    · trivial
    · trivial

theorem manager_meets_history_run :
    (comparedIn "eve" 8 (history id (Manager.new id "secret") guessing)).length ≤ 5 ∧
      TurnedAway id (Manager.after id (Manager.new id "secret") (guesses 5)) 5 "eve" ∧
      ((Manager.after id (Manager.new id "secret") (guesses 6)).login id 6 "ann" "secret"
        (some zeros)).1.isIssued ∧
      (history id (Manager.new id "secret") guessing).filter (·.1.isLoginOf "eve") =
        history id (Manager.new id "secret") (guessing.filter (·.isLoginOf "eve")) ∧
      Granted zerosID 7 (history id (Manager.new id "secret") (guessing.take 7)) ∧
      ¬Granted zerosID 9 (history id (Manager.new id "secret") (guessing.take 9)) := by
  have clock : guessing.Pairwise fun a b => a.now ≤ b.now := by decide
  have failed : Unsuccessful "eve" 8 (history id (Manager.new id "secret") guessing) := by
    unfold Unsuccessful
    decide
  obtain ⟨few, outcome, own, valid⟩ :=
    manager_meets_history id "secret" guessing clock guessing_random Function.injective_id.injOn
  refine ⟨few "eve" 8 failed, ?_, ?_, own "eve", ?_, ?_⟩
  · have sixth := outcome (guesses 5) 5 "eve" "guess" (some zeros) (guessing.drop 6) rfl
    refine sixth.resolve_right ?_
    rw [if_neg (by decide)]
    decide
  · have ann := outcome (guesses 6) 6 "ann" "secret" (some zeros) (guessing.drop 7) rfl
    rw [if_pos rfl] at ann
    refine ann.resolve_left fun away => ?_
    exact absurd (away.unseen "secret" (some zeros)) (by decide)
  · exact (valid (guessing.take 7) 7 zerosID (guessing.drop 8) rfl).mp (by decide)
  · exact fun granted => absurd ((valid (guessing.take 9) 9 zerosID [] rfl).mpr granted) (by decide)

end TermLinks.Auth
