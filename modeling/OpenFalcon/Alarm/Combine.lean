import OpenFalcon.Assoc.Collect
import OpenFalcon.Common.Tags

/-!
# The combiner of alarm

`modules/alarm/cron/combiner.go`.  Alarms of low priority wait in a queue per channel, one record
for each user.  Once a minute the queue is emptied, the records are grouped, and each group becomes
one message to the address of its first record.  A mail carries the contents of its records; an
instant message or a short message of several records carries a link to them.

The key of a group is a concatenation: priority, status, address and metric, with nothing between
them.  So an address can borrow a letter from the metric, and two people share a group of which one
of them hears.  The messages reach the right people exactly if the keys of the queued records tell
the four fields apart, and every link that is needed can be made (`combined_reach_iff`).
-/

namespace OpenFalcon.Alarm

open Assoc

/-! ## The source -/

/-- `SmsDto`. -/
structure SmsDto where
  priority : Int
  metric : String
  content : String
  phone : String
  status : String

/-- `ImDto`. -/
structure ImDto where
  priority : Int
  metric : String
  content : String
  im : String
  status : String

/-- `MailDto`. -/
structure MailDto where
  priority : Int
  metric : String
  subject : String
  content : String
  email : String
  status : String

/-- What the combiner reads of a record of any channel. -/
class Dto (α : Type) where
  priority : α → Int
  status : α → String
  address : α → String
  metric : α → String
  content : α → String

instance : Dto SmsDto :=
  ⟨SmsDto.priority, SmsDto.status, SmsDto.phone, SmsDto.metric, SmsDto.content⟩

instance : Dto ImDto :=
  ⟨ImDto.priority, ImDto.status, ImDto.im, ImDto.metric, ImDto.content⟩

instance : Dto MailDto :=
  ⟨MailDto.priority, MailDto.status, MailDto.email, MailDto.metric, MailDto.content⟩

/-- `model.Sms` and `model.IM`.  The addresses are joined by commas when the message is written;
`stored` is the text behind the link that the content has in it. -/
structure Chat where
  tos : List String
  content : String
  stored : Option String

/-- `model.Mail`. -/
structure Mail where
  tos : List String
  subject : String
  content : String

/-- `WriteSms` and `WriteIM`. -/
def writeChat (tos : List String) (content : String) (stored : Option String) : List Chat :=
  if tos.isEmpty then [] else [⟨tos, content, stored⟩]

/-- `WriteMail`. -/
def writeMail (tos : List String) (subject content : String) : List Mail :=
  if tos.isEmpty then [] else [⟨tos, subject, content⟩]

section

variable {α : Type} [Dto α]

/-- A redis queue, the newest record first; texts that are not a record, which the combiner skips,
are `none`. -/
abbrev Queue (α : Type) := List (Option α)

/-- `popAllMailDto`, `popAllImDto`, `popAllSmsDto`: `RPOP` until the queue is empty. -/
def popAll (queue : Queue α) : List α := queue.reverse.filterMap id

/-- The key of a record in `dtoMap`. -/
def dtoKey (d : α) : String :=
  toString (Dto.priority d) ++ Dto.status d ++ Dto.address d ++ Dto.metric d

/-- `dtoMap`. -/
def dtoMap (dtos : List α) : GoMap String (List α) := groupBy (fun d => some (dtoKey d)) dtos

/-- `[P%d][%s] %d %s`, which every text about several records begins with. -/
def heading (d : α) (size : ℕ) : String :=
  "[P" ++ toString (Dto.priority d) ++ "][" ++ Dto.status d ++ "] " ++ toString size ++ " " ++
    Dto.metric d

/-- The example taken from the first content. -/
def eg (first : String) : String := ((first.splitOn "][")[2]?).getD ""

/-- The link in an answer of `LinkToSMS`, unless it is an error or empty. -/
def usable (link : Option String) : Option String := link.filter (· ≠ "")

/-- The text about several records, without and with the link. -/
def chatText (dashboard : String) (d : α) (size : ℕ) : Option String → String
  | none => heading d size ++ ".  e.g. " ++ eg (Dto.content d) ++ ". detail in email"
  | some path =>
    heading d size ++ " e.g. " ++ eg (Dto.content d) ++ " " ++ dashboard ++ "/portal/links/" ++
      path ++ " "

/-- The body of the loops of `combineIM` and `combineSms`. -/
def chatOf (dashboard : String) (link : Option String) : List α → List Chat
  | [] => []
  | [d] => writeChat [Dto.address d] (Dto.content d) none
  | d :: d' :: ds =>
    writeChat [Dto.address d] (chatText dashboard d (ds.length + 2) (usable link))
      ((usable link).map fun _ => ",,".intercalate ((d :: d' :: ds).map Dto.content))

/-- The body of the loop of `combineMail`. -/
def mailOf : List MailDto → List Mail
  | [] => []
  | [d] => writeMail [d.email] d.subject d.content
  | d :: d' :: ds =>
    writeMail [d.email] (heading d (ds.length + 2))
      ("\r\n".intercalate ((d :: d' :: ds).map MailDto.content))

/-- `combineIM` and `combineSms`: what is written, each message with the array it is written from.
The answers of `LinkToSMS` are given by the group. -/
def combineChat (dashboard : String) (link : String → Option String) (queue : Queue α)
    (visit : Visit (dtoMap (popAll queue))) : List (List α × Chat) :=
  visit.entries.flatMap fun e => (chatOf dashboard (link e.1) e.2).map (Prod.mk e.2)

end

/-- `combineIM`. -/
def combineIM (dashboard : String) (link : String → Option String) (queue : Queue ImDto)
    (visit : Visit (dtoMap (popAll queue))) : List (List ImDto × Chat) :=
  combineChat dashboard link queue visit

/-- `combineSms`. -/
def combineSms (dashboard : String) (link : String → Option String) (queue : Queue SmsDto)
    (visit : Visit (dtoMap (popAll queue))) : List (List SmsDto × Chat) :=
  combineChat dashboard link queue visit

/-- `combineMail`: what is written, each mail with the array it is written from. -/
def combineMail (queue : Queue MailDto) (visit : Visit (dtoMap (popAll queue))) :
    List (List MailDto × Mail) :=
  visit.entries.flatMap fun e => (mailOf e.2).map (Prod.mk e.2)

/-! ## What the messages should be -/

section

variable {α : Type} [Dto α]

/-- What a reader gets of a message: to whom it is, and the text of the records in it. -/
structure Sent where
  tos : List String
  text : Option String

/-- A mail is its own text. -/
def Mail.sent (mail : Mail) : Sent := ⟨mail.tos, some mail.content⟩

/-- A chat about one record is its own text, any other has the text behind its link. -/
def Chat.sent (size : ℕ) (chat : Chat) : Sent :=
  ⟨chat.tos, if size = 1 then some chat.content else chat.stored⟩

/-- The message is to every record's own address, the records belong together, and their contents
are in it in their order. -/
structure Delivers (sep : String) (arr : List α) (sent : Sent) : Prop where
  address : ∀ d ∈ arr, sent.tos = [Dto.address d]
  shared : ∀ d ∈ arr, ∀ d' ∈ arr, Dto.priority d = Dto.priority d' ∧
    Dto.status d = Dto.status d' ∧ Dto.metric d = Dto.metric d'
  text : sent.text = some (sep.intercalate (arr.map Dto.content))

/-- Every record is in one message, which keeps the order of the queue and delivers it. -/
structure Reach (sep : String) (dtos : List α) (out : List (List α × Sent)) : Prop where
  once : (out.flatMap Prod.fst).Perm dtos
  ordered : ∀ o ∈ out, o.1.Sublist dtos
  delivered : ∀ o ∈ out, Delivers sep o.1 o.2

/-- The mails reach the right people. -/
def MailsReach (queue : Queue MailDto) (visit : Visit (dtoMap (popAll queue))) : Prop :=
  Reach "\r\n" (popAll queue) ((combineMail queue visit).map fun o => (o.1, o.2.sent))

/-- The chats reach the right people. -/
def ChatsReach (queue : Queue α) (out : List (List α × Chat)) : Prop :=
  Reach ",," (popAll queue) (out.map fun o => (o.1, o.2.sent o.1.length))

/-- The keys of the records tell apart what is in them. -/
def KeysTell (dtos : List α) : Prop :=
  ∀ d ∈ dtos, ∀ d' ∈ dtos, dtoKey d = dtoKey d' →
    Dto.address d = Dto.address d' ∧ Dto.priority d = Dto.priority d' ∧
      Dto.status d = Dto.status d' ∧ Dto.metric d = Dto.metric d'

/-- `LinkToSMS` answers with a path for every group of several records. -/
def Linked (link : String → Option String) (dtos : List α) : Prop :=
  ∀ k, 2 ≤ (dtos.filter fun d => dtoKey d = k).length → ∃ path, link k = some path ∧ path ≠ ""

end

/-! ## The groups -/

section

variable {α : Type} [Dto α] {dtos : List α} {sep : String} (visit : Visit (dtoMap dtos))

theorem mem_visit_dtoMap {k : String} {arr : List α} :
    (⟨k, arr⟩ : Σ _ : String, List α) ∈ visit.entries ↔
      (dtos.filter fun d => dtoKey d = k) = arr ∧ arr ≠ [] := by
  have hkey : (fun d : α => decide (some (dtoKey d) = some k)) =
      fun d => decide (dtoKey d = k) := by
    funext d
    rw [decide_eq_decide]
    exact Option.some_inj
  rw [visit.mem_entries, dtoMap, lookup_groupBy, hkey]
  split_ifs with hnil
  · constructor
    · intro h
      cases h
    · rintro ⟨rfl, hne⟩
      exact absurd hnil hne
  · rw [Option.some_inj]
    constructor
    · rintro rfl
      exact ⟨rfl, hnil⟩
    · exact fun h => h.1

theorem perm_flatMap_visit : (visit.entries.flatMap Sigma.snd).Perm dtos := by
  have hspread := perm_spread_groupBy (fun _ d => d) (fun d : α => some (dtoKey d)) dtos
  have hall : (dtos.filterMap fun d => (some (dtoKey d)).map fun _ => d) = dtos := by
    simp
  rw [hall] at hspread
  refine (visit.perm.flatMap_right Sigma.snd).trans ?_
  refine List.Perm.trans (List.Perm.of_eq ?_) hspread
  simp [spread, dtoMap]

/-- A group of the queue, as the loops see it: a first record and others of the same key. -/
theorem exists_cons_of_mem_visit {e : Σ _ : String, List α} (he : e ∈ visit.entries) :
    ∃ d ds, e.2 = d :: ds ∧ (∀ x, x ∈ e.2 ↔ x ∈ dtos ∧ dtoKey x = e.1) ∧ e.2.Sublist dtos := by
  obtain ⟨k, arr⟩ := e
  obtain ⟨rfl, hne⟩ := (mem_visit_dtoMap visit).mp he
  obtain ⟨d, ds, hcons⟩ := List.exists_cons_of_ne_nil hne
  refine ⟨d, ds, hcons, fun x => ?_, List.filter_sublist⟩
  rw [List.mem_filter, decide_eq_true_iff]

/-- The message of a group: to its first record, with this text. -/
def toFirst (text : Option String) (arr : List α) : List (List α × Sent) :=
  (arr.head?.map fun d => (arr, ⟨[Dto.address d], text⟩)).toList

theorem mem_flatMap_toFirst {groups : List (Σ _ : String, List α)}
    {text : (Σ _ : String, List α) → Option String} {o : List α × Sent} :
    o ∈ groups.flatMap (fun e => toFirst (text e) e.2) ↔
      ∃ e ∈ groups, ∃ d ds, e.2 = d :: ds ∧ o = (e.2, ⟨[Dto.address d], text e⟩) := by
  rw [List.mem_flatMap]
  refine exists_congr fun e => and_congr_right fun _ => ?_
  cases harr : e.2 with
  | nil => simp [toFirst]
  | cons d ds => simp [toFirst]

/-- **The groups reach the right people exactly if the keys tell the records apart and every text
can be read**, when each group becomes one message to its first record. -/
theorem reach_iff (text : (Σ _ : String, List α) → Option String) :
    Reach sep dtos (visit.entries.flatMap fun e => toFirst (text e) e.2) ↔
      KeysTell dtos ∧
        ∀ e ∈ visit.entries, text e = some (sep.intercalate (e.2.map Dto.content)) := by
  have hmessage : ∀ e ∈ visit.entries, ∃ d ds, e.2 = d :: ds ∧
      (∀ x, x ∈ e.2 ↔ x ∈ dtos ∧ dtoKey x = e.1) ∧
      (e.2, (⟨[Dto.address d], text e⟩ : Sent)) ∈
        visit.entries.flatMap fun e => toFirst (text e) e.2 := fun e he => by
    obtain ⟨d, ds, hcons, hmem, -⟩ := exists_cons_of_mem_visit visit he
    exact ⟨d, ds, hcons, hmem, mem_flatMap_toFirst.mpr ⟨e, he, d, ds, hcons, rfl⟩⟩
  constructor
  · intro h
    constructor
    · intro d hd d' hd' hkey
      -- both records are in the group of their key, and its message is to either of them
      have hne : (dtos.filter fun x => dtoKey x = dtoKey d) ≠ [] :=
        List.ne_nil_of_mem (List.mem_filter.mpr ⟨hd, decide_eq_true rfl⟩)
      obtain ⟨_, _, -, hmem, hout⟩ := hmessage _ ((mem_visit_dtoMap visit).mpr ⟨rfl, hne⟩)
      have hdel := h.delivered _ hout
      have hin := (hmem d).mpr ⟨hd, rfl⟩
      have hin' := (hmem d').mpr ⟨hd', hkey.symm⟩
      refine ⟨?_, hdel.shared d hin d' hin'⟩
      exact List.singleton_inj.mp ((hdel.address d hin).symm.trans (hdel.address d' hin'))
    · intro e he
      obtain ⟨_, _, -, -, hout⟩ := hmessage e he
      exact (h.delivered _ hout).text
  · rintro ⟨hkeys, htext⟩
    refine ⟨?_, ?_, ?_⟩
    · refine List.Perm.trans (List.Perm.of_eq ?_) (perm_flatMap_visit visit)
      rw [List.flatMap_assoc]
      refine List.flatMap_congr fun e he => ?_
      obtain ⟨d, ds, hcons, -, -⟩ := exists_cons_of_mem_visit visit he
      simp [toFirst, hcons]
    · intro o ho
      obtain ⟨e, he, -, -, -, rfl⟩ := mem_flatMap_toFirst.mp ho
      obtain ⟨-, -, -, -, hsublist⟩ := exists_cons_of_mem_visit visit he
      exact hsublist
    · intro o ho
      obtain ⟨e, he, d, ds, hcons, rfl⟩ := mem_flatMap_toFirst.mp ho
      obtain ⟨-, -, -, hmem, -⟩ := exists_cons_of_mem_visit visit he
      have htell : ∀ x ∈ e.2, ∀ y ∈ e.2, _ := fun x hx y hy =>
        hkeys x ((hmem x).mp hx).1 y ((hmem y).mp hy).1
          (((hmem x).mp hx).2.trans ((hmem y).mp hy).2.symm)
      refine ⟨fun x hx => ?_, fun x hx y hy => (htell x hx y hy).2, htext e he⟩
      rw [(htell d (hcons ▸ List.mem_cons_self ..) x hx).1]

end

/-! ## The channels -/

section

variable {α : Type} [Dto α]

theorem sent_mailOf (arr : List MailDto) :
    ((mailOf arr).map fun mail => (arr, mail.sent)) =
      toFirst (some ("\r\n".intercalate (arr.map Dto.content))) arr := by
  match arr with
  | [] => rfl
  | [d] => rfl
  | d :: d' :: ds => rfl

/-- The text of a group that its receiver can read. -/
def readable (link : String → Option String) (e : Σ _ : String, List α) : Option String :=
  if e.2.length = 1 then some (",,".intercalate (e.2.map Dto.content))
  else (usable (link e.1)).map fun _ => ",,".intercalate (e.2.map Dto.content)

variable (dashboard : String)

theorem sent_chatOf (link : String → Option String) (e : Σ _ : String, List α) :
    ((chatOf dashboard (link e.1) e.2).map fun chat => (e.2, chat.sent e.2.length)) =
      toFirst (readable link e) e.2 := by
  obtain ⟨k, arr⟩ := e
  match arr with
  | [] => rfl
  | [d] => rfl
  | d :: d' :: ds => simp [chatOf, writeChat, Chat.sent, readable, toFirst]

theorem usable_map_eq_some_iff {link : Option String} {text : String} :
    ((usable link).map fun _ => text) = some text ↔ ∃ path, link = some path ∧ path ≠ "" := by
  cases link with
  | none => simp [usable]
  | some path =>
    by_cases hpath : path = ""
    · simp [usable, Option.filter, hpath]
    · simp [usable, Option.filter, hpath]

/-- The texts of all groups can be read exactly if the links that are needed can be made. -/
theorem readable_iff_linked {dtos : List α} (visit : Visit (dtoMap dtos))
    (link : String → Option String) :
    (∀ e ∈ visit.entries, readable link e = some (",,".intercalate (e.2.map Dto.content))) ↔
      Linked link dtos := by
  constructor
  · intro h k hlength
    have hmem : (⟨k, dtos.filter fun d => dtoKey d = k⟩ : Σ _ : String, List α) ∈
        visit.entries :=
      (mem_visit_dtoMap visit).mpr ⟨rfl, List.ne_nil_of_length_pos (by omega)⟩
    have hread := h _ hmem
    have hmany : (dtos.filter fun d => dtoKey d = k).length ≠ 1 := by omega
    rw [readable, if_neg hmany] at hread
    exact usable_map_eq_some_iff.mp hread
  · rintro h ⟨k, arr⟩ he
    obtain ⟨rfl, hne⟩ := (mem_visit_dtoMap visit).mp he
    rw [readable]
    split_ifs with hone
    · rfl
    · have hpos := List.length_pos_of_ne_nil hne
      have hmany : (dtos.filter fun d => dtoKey d = k).length ≠ 1 := hone
      exact usable_map_eq_some_iff.mpr (h k (by omega))

theorem mailsReach_iff (queue : Queue MailDto) (visit : Visit (dtoMap (popAll queue))) :
    MailsReach queue visit ↔ KeysTell (popAll queue) := by
  have hout : ((combineMail queue visit).map fun o => (o.1, o.2.sent)) =
      visit.entries.flatMap fun e =>
        toFirst (some ("\r\n".intercalate (e.2.map Dto.content))) e.2 := by
    rw [combineMail, List.map_flatMap]
    refine List.flatMap_congr fun e _ => ?_
    rw [List.map_map]
    exact sent_mailOf e.2
  rw [MailsReach, hout, reach_iff visit fun e => some ("\r\n".intercalate (e.2.map Dto.content))]
  exact and_iff_left fun _ _ => rfl

theorem chatsReach_iff (link : String → Option String) (queue : Queue α)
    (visit : Visit (dtoMap (popAll queue))) :
    ChatsReach queue (combineChat dashboard link queue visit) ↔
      KeysTell (popAll queue) ∧ Linked link (popAll queue) := by
  have hout : ((combineChat dashboard link queue visit).map fun o => (o.1, o.2.sent o.1.length)) =
      visit.entries.flatMap fun e => toFirst (readable link e) e.2 := by
    rw [combineChat, List.map_flatMap]
    refine List.flatMap_congr fun e _ => ?_
    rw [List.map_map]
    exact sent_chatOf dashboard link e
  rw [ChatsReach, hout, reach_iff visit (readable link), readable_iff_linked]

/-- **When combined notifications reach the right people**, on the three channels. -/
theorem combined_reach_iff (dashboard : String) (linkIM linkSms : String → Option String)
    (mails : Queue MailDto) (ims : Queue ImDto) (smss : Queue SmsDto)
    (visitMail : Visit (dtoMap (popAll mails))) (visitIM : Visit (dtoMap (popAll ims)))
    (visitSms : Visit (dtoMap (popAll smss))) :
    (MailsReach mails visitMail ∧
        ChatsReach ims (combineIM dashboard linkIM ims visitIM) ∧
        ChatsReach smss (combineSms dashboard linkSms smss visitSms)) ↔
      KeysTell (popAll mails) ∧
        (KeysTell (popAll ims) ∧ Linked linkIM (popAll ims)) ∧
        (KeysTell (popAll smss) ∧ Linked linkSms (popAll smss)) :=
  and_congr (mailsReach_iff mails visitMail)
    (and_congr (chatsReach_iff dashboard linkIM ims visitIM)
      (chatsReach_iff dashboard linkSms smss visitSms))

end

/-- Two mails to different people, whose keys are both `3PROBLEMa@x.comcpu`. -/
def crossed : Queue MailDto :=
  [some ⟨3, "cpu", "cpu", "cpu is high", "a@x.com", "PROBLEM"⟩,
    some ⟨3, "mcpu", "mcpu", "mcpu is high", "a@x.co", "PROBLEM"⟩]

/-- Two instant messages about one metric to one account. -/
def twice : Queue ImDto :=
  [some ⟨3, "cpu", "cpu is high", "bob", "PROBLEM"⟩, some ⟨3, "cpu", "cpu is up", "bob", "PROBLEM"⟩]

/-- The mail for `a@x.com` is in a mail to `a@x.co`, and no other mail is written; and without a
link neither of two contents can be read by anyone. -/
theorem combined_not_reach :
    (¬ MailsReach crossed (Visit.asWritten _) ∧
        (combineMail crossed (Visit.asWritten _)).map (fun o => (o.2.tos, o.2.content)) =
          [(["a@x.co"], "mcpu is high\r\ncpu is high")]) ∧
      ¬ ChatsReach twice (combineIM "" (fun _ => none) twice (Visit.asWritten _)) := by
  refine ⟨⟨?_, ?_⟩, ?_⟩
  · rw [mailsReach_iff]
    intro h
    have hsame := (h _ (List.mem_cons_self ..) _ (List.mem_cons_of_mem _ (List.mem_cons_self ..))
      (by decide +kernel)).1
    exact absurd hsame (by decide)
  · decide +kernel
  · rw [combineIM, chatsReach_iff]
    rintro ⟨-, hlink⟩
    obtain ⟨path, hpath, -⟩ := hlink "3PROBLEMbobcpu" (by decide +kernel)
    cases hpath

end OpenFalcon.Alarm
