import OpenFalcon.Alarm.Combine

/-!
# The consumers of alarm

`modules/alarm/cron/event_consumer.go`.  An event of high priority is written at once, in one
message per channel to the set of the addresses of all users.  An event of low priority is queued,
one record per user and channel, and the combiner writes it later.

The two ways notify the same people, with one exception.  The set of the direct way leaves out users
without an address; the records are queued for them too, and become a message to nobody.  So the
ways agree exactly if every user has an address on each channel that is used
(`same_people_iff`).  A shared address is harmless: the records of one event differ in nothing but
the address, so there the key of the combiner is as good as the address itself
(`dtoKey_inj_address`), and users who share one share a message.
-/

namespace OpenFalcon.Alarm

/-! ## The source -/

/-- `uic.User`: what alarm reads of it. -/
structure User where
  name : String
  phone : String
  email : String
  im : String

/-- An event, with the texts that `GenerateSmsContent`, `GenerateMailContent` and
`GenerateIMContent` make of it. -/
structure Event where
  priority : Int
  metric : String
  status : String
  smsContent : String
  mailContent : String
  imContent : String

/-- `GetUsers`: the users of the teams by name, where `usersOf` is the answer for a team. -/
def getUsers (usersOf : String → Option (List User)) (teams : String) : GoMap String User :=
  (((teams.toList.splitOn ',').map String.ofList).filter (· ≠ "")).foldl
    (fun userMap team => ((usersOf team).getD []).foldl
      (fun userMap user => userMap.insert user.name user) userMap) ∅

/-- A set of addresses without the empty one, as a slice. -/
def addressSet (address : User → String) (users : List User) : List String :=
  ((users.map address).filter (· ≠ "")).dedup

/-- The users in the order of one `range` over the map. -/
def usersIn {userMap : GoMap String User} (visit : Visit userMap) : List User :=
  visit.entries.map Sigma.snd

/-- `ParseTeams`: phones, mails, accounts. -/
def parseTeams (usersOf : String → Option (List User)) (teams : String)
    (visit : Visit (getUsers usersOf teams)) : List String × List String × List String :=
  if teams = "" then ([], [], [])
  else (addressSet User.phone (usersIn visit), addressSet User.email (usersIn visit),
    addressSet User.im (usersIn visit))

/-- What is written to the three channels. -/
structure Written where
  sms : List Chat
  im : List Chat
  mail : List Mail

/-- `consumeHighEvents`. -/
def consumeHighEvents (usersOf : String → Option (List User)) (event : Event) (uic : String)
    (visit : Visit (getUsers usersOf uic)) : Written :=
  if uic = "" then ⟨[], [], []⟩
  else
    ⟨if event.priority < 3 then
        writeChat (parseTeams usersOf uic visit).1 event.smsContent none
      else [],
      writeChat (parseTeams usersOf uic visit).2.2 event.imContent none,
      writeMail (parseTeams usersOf uic visit).2.1 event.smsContent event.mailContent⟩

/-- `LPUSH`, record after record. -/
def lpushAll {α : Type} (queue : Queue α) (dtos : List α) : Queue α :=
  dtos.foldl (fun queue d => some d :: queue) queue

/-- The records of `ParseUserSms`. -/
def parseUserSms (event : Event) (users : List User) : List SmsDto :=
  users.map fun user => ⟨event.priority, event.metric, event.smsContent, user.phone, event.status⟩

/-- The records of `ParseUserIm`. -/
def parseUserIm (event : Event) (users : List User) : List ImDto :=
  users.map fun user => ⟨event.priority, event.metric, event.imContent, user.im, event.status⟩

/-- The records of `ParseUserMail`. -/
def parseUserMail (event : Event) (users : List User) : List MailDto :=
  users.map fun user => ⟨event.priority, event.metric, event.smsContent, event.mailContent,
    user.email, event.status⟩

/-- The three queues of the combiner. -/
structure Queues where
  sms : Queue SmsDto
  im : Queue ImDto
  mail : Queue MailDto

/-- `consumeLowEvents`.  Each of the three functions it calls asks for the users and ranges over
them in an order of its own. -/
def consumeLowEvents (usersOf : String → Option (List User)) (event : Event) (uic : String)
    (visitSms visitIM visitMail : Visit (getUsers usersOf uic)) (queues : Queues) : Queues :=
  if uic = "" then queues
  else
    ⟨if event.priority < 3 then lpushAll queues.sms (parseUserSms event (usersIn visitSms))
      else queues.sms,
      lpushAll queues.im (parseUserIm event (usersIn visitIM)),
      lpushAll queues.mail (parseUserMail event (usersIn visitMail))⟩

/-- The orders in which the three tasks of the combiner range over their groups. -/
structure CombineOrder (queues : Queues) where
  sms : Visit (dtoMap (popAll queues.sms))
  im : Visit (dtoMap (popAll queues.im))
  mail : Visit (dtoMap (popAll queues.mail))

/-- The order in which the groups are written is one of them. -/
def CombineOrder.asWritten (queues : Queues) : CombineOrder queues :=
  ⟨Visit.asWritten _, Visit.asWritten _, Visit.asWritten _⟩

/-- What the three tasks of the combiner write. -/
def combineAll (dashboard : String) (linkIM linkSms : String → Option String) (queues : Queues)
    (order : CombineOrder queues) : Written :=
  ⟨(combineSms dashboard linkSms queues.sms order.sms).map Prod.snd,
    (combineIM dashboard linkIM queues.im order.im).map Prod.snd,
    (combineMail queues.mail order.mail).map Prod.snd⟩

/-! ## The same people -/

/-- The addresses on the second way are the addresses that are not empty on the first, and none is
written to twice. -/
structure SameAddresses (high low : List String) : Prop where
  same : ∀ a, a ∈ low ↔ a ∈ high ∧ a ≠ ""
  once : low.Nodup

/-- Both ways notify the same people. -/
structure SamePeople (high low : Written) : Prop where
  sms : SameAddresses (high.sms.flatMap Chat.tos) (low.sms.flatMap Chat.tos)
  im : SameAddresses (high.im.flatMap Chat.tos) (low.im.flatMap Chat.tos)
  mail : SameAddresses (high.mail.flatMap Mail.tos) (low.mail.flatMap Mail.tos)

/-! ## The direct way -/

variable {address : User → String} {a : String}

section

variable {users : List User} (tos : List String)

theorem tos_writeChat (content : String) (stored : Option String) :
    (writeChat tos content stored).flatMap Chat.tos = tos := by
  cases tos with
  | nil => rfl
  | cons a tos => simp [writeChat]

theorem tos_writeMail (subject content : String) :
    (writeMail tos subject content).flatMap Mail.tos = tos := by
  cases tos with
  | nil => rfl
  | cons a tos => simp [writeMail]

theorem mem_addressSet :
    a ∈ addressSet address users ↔ (∃ user ∈ users, address user = a) ∧ a ≠ "" := by
  rw [addressSet, List.mem_dedup, List.mem_filter, List.mem_map, decide_eq_true_iff]

end

/-! ## The way over the queue -/

section

variable {α : Type} [Dto α] {dtos : List α}

omit [Dto α] in
@[simp] theorem popAll_nil : popAll ([] : Queue α) = [] := rfl

omit [Dto α] in
@[simp] theorem popAll_lpushAll (dtos : List α) : popAll (lpushAll [] dtos) = dtos := by
  have hqueue : ∀ (queue : Queue α), popAll (lpushAll queue dtos) = popAll queue ++ dtos := by
    induction dtos with
    | nil => exact fun queue => (List.append_nil _).symm
    | cons d dtos ih =>
      intro queue
      rw [lpushAll, List.foldl_cons, ← lpushAll, ih]
      simp [popAll]
  exact hqueue []

/-- The records of one event differ in nothing but address and content. -/
def OfOneEvent (dtos : List α) : Prop :=
  ∀ d ∈ dtos, ∀ d' ∈ dtos, Dto.priority d = Dto.priority d' ∧ Dto.status d = Dto.status d' ∧
    Dto.metric d = Dto.metric d'

/-- **Among the records of one event the key is as good as the address.** -/
theorem dtoKey_inj_address (h : OfOneEvent dtos) {d d' : α} (hd : d ∈ dtos) (hd' : d' ∈ dtos) :
    dtoKey d = dtoKey d' ↔ Dto.address d = Dto.address d' := by
  obtain ⟨hpriority, hstatus, hmetric⟩ := h d hd d' hd'
  rw [dtoKey, dtoKey, hpriority, hstatus, hmetric]
  constructor
  · intro hkey
    have hchars := congrArg String.toList hkey
    simp only [String.toList_append, List.append_assoc, List.append_cancel_left_eq,
      List.append_cancel_right_eq] at hchars
    exact String.toList_inj.mp hchars
  · intro haddress
    rw [haddress]

/-- The addresses of the first records of the groups. -/
def firsts (groups : List (Σ _ : String, List α)) : List String :=
  groups.filterMap fun e => e.2.head?.map Dto.address

variable (dashboard : String)

theorem tos_chatOf (link : Option String) (arr : List α) :
    (chatOf dashboard link arr).flatMap Chat.tos = (arr.head?.map Dto.address).toList := by
  match arr with
  | [] => rfl
  | [d] => rfl
  | d :: d' :: ds => rfl

theorem tos_mailOf (arr : List MailDto) :
    (mailOf arr).flatMap Mail.tos = (arr.head?.map Dto.address).toList := by
  match arr with
  | [] => rfl
  | [d] => rfl
  | d :: d' :: ds => rfl

theorem tos_combineChat (link : String → Option String) (queue : Queue α)
    (visit : Visit (dtoMap (popAll queue))) :
    ((combineChat dashboard link queue visit).map Prod.snd).flatMap Chat.tos =
      firsts visit.entries := by
  rw [combineChat, firsts, List.map_flatMap, List.flatMap_assoc, List.filterMap_eq_flatMap_toList]
  refine List.flatMap_congr fun e _ => ?_
  rw [List.map_map, ← tos_chatOf dashboard (link e.1)]
  exact congrArg _ (List.map_id _)

theorem tos_combineMail (queue : Queue MailDto) (visit : Visit (dtoMap (popAll queue))) :
    ((combineMail queue visit).map Prod.snd).flatMap Mail.tos = firsts visit.entries := by
  rw [combineMail, firsts, List.map_flatMap, List.flatMap_assoc, List.filterMap_eq_flatMap_toList]
  refine List.flatMap_congr fun e _ => ?_
  rw [List.map_map, ← tos_mailOf]
  exact congrArg _ (List.map_id _)

/-- The groups of one event are written to the addresses of its records. -/
theorem mem_firsts (h : OfOneEvent dtos) (visit : Visit (dtoMap dtos)) :
    a ∈ firsts visit.entries ↔ ∃ d ∈ dtos, Dto.address d = a := by
  rw [firsts, List.mem_filterMap]
  constructor
  · rintro ⟨e, he, hfirst⟩
    obtain ⟨d, ds, hcons, hmem, -⟩ := exists_cons_of_mem_visit visit he
    rw [hcons, List.head?_cons, Option.map_some, Option.some_inj] at hfirst
    exact ⟨d, ((hmem d).mp (hcons ▸ List.mem_cons_self ..)).1, hfirst⟩
  · rintro ⟨d, hd, rfl⟩
    have hne : (dtos.filter fun x => dtoKey x = dtoKey d) ≠ [] :=
      List.ne_nil_of_mem (List.mem_filter.mpr ⟨hd, decide_eq_true rfl⟩)
    have he := (mem_visit_dtoMap visit).mpr ⟨rfl, hne⟩
    obtain ⟨d', ds, hcons, hmem, -⟩ := exists_cons_of_mem_visit visit he
    refine ⟨_, he, ?_⟩
    obtain ⟨hd', hkey⟩ := (hmem d').mp (hcons ▸ List.mem_cons_self ..)
    rw [hcons, List.head?_cons, Option.map_some, (dtoKey_inj_address h hd' hd).mp hkey]

theorem nodup_firsts (h : OfOneEvent dtos) (visit : Visit (dtoMap dtos)) :
    (firsts visit.entries).Nodup := by
  have hkeys : visit.entries.NodupKeys :=
    (List.perm_nodupKeys visit.perm).mpr (dtoMap dtos).nodupKeys
  rw [firsts, List.Nodup, List.pairwise_filterMap]
  refine (List.nodupKeys_iff_pairwise.mp hkeys).imp_of_mem ?_
  intro e e' he he' hne a ha a' ha' haa'
  obtain ⟨d, ds, hcons, hmem, -⟩ := exists_cons_of_mem_visit visit he
  obtain ⟨d', ds', hcons', hmem', -⟩ := exists_cons_of_mem_visit visit he'
  obtain ⟨hd, hkey⟩ := (hmem d).mp (hcons ▸ List.mem_cons_self ..)
  obtain ⟨hd', hkey'⟩ := (hmem' d').mp (hcons' ▸ List.mem_cons_self ..)
  rw [hcons, List.head?_cons, Option.map_some, Option.some_inj] at ha
  rw [hcons', List.head?_cons, Option.map_some, Option.some_inj] at ha'
  refine hne ?_
  rw [← hkey, ← hkey', dtoKey_inj_address h hd hd', ha, ha', haa']

/-- **A channel that is used agrees exactly if every user has an address on it.** -/
theorem sameAddresses_iff {queue : Queue α} (visit : Visit (dtoMap (popAll queue)))
    (hone : OfOneEvent (popAll queue)) {used : Prop} {listed : User → Prop} {high : List String}
    (hhigh : ∀ a, a ∈ high ↔ used ∧ (∃ user, listed user ∧ address user = a) ∧ a ≠ "")
    (hlow : ∀ a, (∃ d ∈ popAll queue, Dto.address d = a) ↔
      used ∧ ∃ user, listed user ∧ address user = a)
    :
    SameAddresses high (firsts visit.entries) ↔
      (used → ∀ user, listed user → address user ≠ "") := by
  constructor
  · intro h hused user huser
    have hwritten := (mem_firsts hone visit).mpr ((hlow _).mpr ⟨hused, user, huser, rfl⟩)
    exact ((h.same _).mp hwritten).2
  · intro h
    refine ⟨fun a => ?_, nodup_firsts hone visit⟩
    rw [mem_firsts hone visit, hlow, hhigh]
    constructor
    · rintro ⟨hused, user, huser, rfl⟩
      have hne := h hused user huser
      exact ⟨⟨hused, ⟨user, huser, rfl⟩, hne⟩, hne⟩
    · rintro ⟨⟨hused, huser, -⟩, -⟩
      exact ⟨hused, huser⟩

end

/-! ## Both ways -/

section

variable {usersOf : String → Option (List User)} {uic : String}

/-- The user is in the answers for the teams. -/
def Listed (usersOf : String → Option (List User)) (uic : String) (user : User) : Prop :=
  ∃ name, (getUsers usersOf uic).lookup name = some user

variable (visit : Visit (getUsers usersOf uic))

theorem mem_usersIn {user : User} : user ∈ usersIn visit ↔ Listed usersOf uic user := by
  rw [usersIn, List.mem_map]
  constructor
  · rintro ⟨e, he, rfl⟩
    exact ⟨e.1, visit.mem_entries.mp he⟩
  · rintro ⟨name, hname⟩
    exact ⟨⟨name, user⟩, visit.mem_entries.mpr hname, rfl⟩

theorem not_listed_empty (user : User) : ¬ Listed usersOf "" user := by
  rintro ⟨name, hname⟩
  cases hname

theorem mem_addressSet_usersIn :
    a ∈ addressSet address (usersIn visit) ↔
      (∃ user, Listed usersOf uic user ∧ address user = a) ∧ a ≠ "" := by
  simp only [mem_addressSet, mem_usersIn]

/-- The addresses of the direct way, by channel. -/
theorem mem_consumeHighEvents (event : Event) (visit : Visit (getUsers usersOf uic)) (a : String) :
    (a ∈ (consumeHighEvents usersOf event uic visit).sms.flatMap Chat.tos ↔
        event.priority < 3 ∧ (∃ user, Listed usersOf uic user ∧ user.phone = a) ∧ a ≠ "") ∧
      (a ∈ (consumeHighEvents usersOf event uic visit).im.flatMap Chat.tos ↔
        True ∧ (∃ user, Listed usersOf uic user ∧ user.im = a) ∧ a ≠ "") ∧
      (a ∈ (consumeHighEvents usersOf event uic visit).mail.flatMap Mail.tos ↔
        True ∧ (∃ user, Listed usersOf uic user ∧ user.email = a) ∧ a ≠ "") := by
  rw [consumeHighEvents]
  split_ifs with huic hpriority
  · subst huic
    simp [not_listed_empty]
  · simp [tos_writeChat, tos_writeMail, parseTeams, huic, mem_addressSet_usersIn, hpriority]
  · simp [tos_writeChat, tos_writeMail, parseTeams, huic, mem_addressSet_usersIn, hpriority]

section Low

variable {event : Event} {visitSms visitIM visitMail : Visit (getUsers usersOf uic)} {q : Queues}
  (hq : consumeLowEvents usersOf event uic visitSms visitIM visitMail ⟨[], [], []⟩ = q)

include hq

/-- The addresses of the records of the way over the queue, by channel. -/
theorem mem_consumeLowEvents (a : String) :
    ((∃ d ∈ popAll q.sms, Dto.address d = a) ↔
        event.priority < 3 ∧ ∃ user, Listed usersOf uic user ∧ user.phone = a) ∧
      ((∃ d ∈ popAll q.im, Dto.address d = a) ↔
        True ∧ ∃ user, Listed usersOf uic user ∧ user.im = a) ∧
      ((∃ d ∈ popAll q.mail, Dto.address d = a) ↔
        True ∧ ∃ user, Listed usersOf uic user ∧ user.email = a) := by
  rw [← hq, consumeLowEvents]
  split_ifs with huic hpriority
  · subst huic
    simp [not_listed_empty]
  · simp [parseUserSms, parseUserIm, parseUserMail, mem_usersIn, hpriority, Dto.address]
  · simp [parseUserIm, parseUserMail, mem_usersIn, hpriority, Dto.address]

theorem ofOneEvent_consumeLowEvents :
    OfOneEvent (popAll q.sms) ∧ OfOneEvent (popAll q.im) ∧ OfOneEvent (popAll q.mail) := by
  rw [← hq, consumeLowEvents]
  split_ifs with huic hpriority
  · simp [OfOneEvent]
  · simp [OfOneEvent, parseUserSms, parseUserIm, parseUserMail, Dto.priority, Dto.status,
      Dto.metric]
  · simp [OfOneEvent, parseUserIm, parseUserMail, Dto.priority, Dto.status, Dto.metric]

end Low

/-- **High and low priority alarms notify the same people exactly if no user lacks an address on a
channel that is used**: mail and instant messages always, short messages for the priorities below
three. -/
theorem same_people_iff (usersOf : String → Option (List User)) (event : Event) (uic : String)
    (visit visitSms visitIM visitMail : Visit (getUsers usersOf uic)) (dashboard : String)
    (linkIM linkSms : String → Option String)
    (order : CombineOrder (consumeLowEvents usersOf event uic visitSms visitIM visitMail
      ⟨[], [], []⟩)) :
    SamePeople (consumeHighEvents usersOf event uic visit)
        (combineAll dashboard linkIM linkSms _ order) ↔
      ∀ name user, (getUsers usersOf uic).lookup name = some user →
        user.email ≠ "" ∧ user.im ≠ "" ∧ (event.priority < 3 → user.phone ≠ "") := by
  have hq : consumeLowEvents usersOf event uic visitSms visitIM visitMail ⟨[], [], []⟩ = _ := rfl
  obtain ⟨honeSms, honeIM, honeMail⟩ := ofOneEvent_consumeLowEvents hq
  have hsms := sameAddresses_iff order.sms honeSms
    (fun a => (mem_consumeHighEvents event visit a).1)
    fun a => (mem_consumeLowEvents hq a).1
  have him := sameAddresses_iff order.im honeIM
    (fun a => (mem_consumeHighEvents event visit a).2.1)
    fun a => (mem_consumeLowEvents hq a).2.1
  have hmail := sameAddresses_iff order.mail honeMail
    (fun a => (mem_consumeHighEvents event visit a).2.2)
    fun a => (mem_consumeLowEvents hq a).2.2
  rw [← tos_combineChat dashboard linkSms] at hsms
  rw [← tos_combineChat dashboard linkIM] at him
  rw [← tos_combineMail] at hmail
  constructor
  · rintro h name user hname
    exact ⟨hmail.mp h.mail trivial user ⟨name, hname⟩, him.mp h.im trivial user ⟨name, hname⟩,
      fun hpriority => hsms.mp h.sms hpriority user ⟨name, hname⟩⟩
  · intro h
    refine ⟨hsms.mpr ?_, him.mpr ?_, hmail.mpr ?_⟩
    · rintro hpriority user ⟨name, hname⟩
      exact (h name user hname).2.2 hpriority
    · rintro - user ⟨name, hname⟩
      exact (h name user hname).2.1
    · rintro - user ⟨name, hname⟩
      exact (h name user hname).1

end

/-- Bob has a phone and an account, and no mail address. -/
def bobWithoutMail : String → Option (List User) := fun _ => some [⟨"bob", "138", "", "bob"⟩]

/-- An event of priority three. -/
def cpuEvent : Event := ⟨3, "cpu", "PROBLEM", "cpu is high", "cpu is high", "cpu is high"⟩

/-- What is queued of the event for Bob. -/
def bobQueues : Queues :=
  consumeLowEvents bobWithoutMail cpuEvent "ops" (Visit.asWritten _) (Visit.asWritten _)
    (Visit.asWritten _) ⟨[], [], []⟩

/-- A user without a mail address is left out by the direct way; over the queue a mail is written
to the empty address. -/
theorem not_same_people :
    (consumeHighEvents bobWithoutMail cpuEvent "ops" (Visit.asWritten _)).mail.flatMap Mail.tos =
        [] ∧
      (combineAll "" (fun _ => none) (fun _ => none) bobQueues
        (CombineOrder.asWritten _)).mail.flatMap Mail.tos = [""] ∧
      ¬ SamePeople (consumeHighEvents bobWithoutMail cpuEvent "ops" (Visit.asWritten _))
        (combineAll "" (fun _ => none) (fun _ => none) bobQueues (CombineOrder.asWritten _)) := by
  have hlow : (combineAll "" (fun _ => none) (fun _ => none) bobQueues
      (CombineOrder.asWritten _)).mail.flatMap Mail.tos = [""] := by
    decide +kernel
  refine ⟨by decide +kernel, hlow, fun h => ?_⟩
  have hempty := (h.mail.same "").mp (by rw [hlow]; exact List.mem_singleton_self _)
  exact hempty.2 rfl

end OpenFalcon.Alarm
