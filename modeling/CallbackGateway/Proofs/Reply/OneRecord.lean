import CallbackGateway.Proofs.Record.Outline
import CallbackGateway.Proofs.Reply.ReadBack

/-!
# One record in both formats

A reply says the same in markup as in JSON: the same names at every level, with the same texts, and
the articles in their order. Whatever stands in the texts of a reply, none of it is read as a part
of its own.

Only news can be refused, if there is no article or there are too many, and they are refused in
both formats.
-/

namespace CallbackGateway.Reply

open Record Text

/-! ## Outlines -/

/-- What an article says. -/
def Article.outline (article : Article) : Outline :=
  .record [("Title", .text article.title), ("Description", .text article.description),
    ("PicUrl", .text article.pictureUrl), ("Url", .text article.url)]

/-- What a piece of music says. -/
def Music.outline (music : Music) : Outline :=
  .record [("Title", .text music.title), ("Description", .text music.description),
    ("MusicUrl", .text music.url), ("HQMusicUrl", .text music.highQualityUrl),
    ("ThumbMediaId", .text music.thumbMediaId)]

/-- The parts that a body adds to a reply. -/
def Body.parts : Body → List (String × Outline)
  | .text content => [("Content", .text content)]
  | .image mediaId => [("Image", .record [("MediaId", .text mediaId)])]
  | .voice mediaId => [("Voice", .record [("MediaId", .text mediaId)])]
  | .video mediaId title description =>
    [("Video", .record [("MediaId", .text mediaId), ("Title", .text title),
      ("Description", .text description)])]
  | .music piece => [("Music", piece.outline)]
  | .news articles =>
    [("ArticleCount", .text (decimal articles.length)),
      ("Articles", .record (articles.map fun article => ("item", article.outline)))]

/-- The parts that every reply has. -/
def headParts (reply : Reply) : List (String × Outline) :=
  [("ToUserName", .text reply.header.toUser), ("FromUserName", .text reply.header.fromUser),
    ("CreateTime", .text (decimal reply.header.createTime)), ("MsgType", .text reply.body.type)]

/-- The parts of a reply. -/
def parts (reply : Reply) : List (String × Outline) := reply.headParts ++ reply.body.parts

/-- What a reply says. -/
def outline (reply : Reply) : Outline := .record reply.parts

/-- The outlines of the articles as items are the outlines of the articles. -/
theorem itemOutlines_articles (articles : List Article) :
    itemOutlines (articles.map Article.markupFields) = articles.map Article.outline := by
  induction articles with
  | nil => rfl
  | cons article articles ih =>
    rw [List.map_cons, List.map_cons, itemOutlines, ih]
    rfl

/-- The group of the articles, taken apart, is one item for each article. -/
theorem ungroup_items (articles : List Article) :
    Outline.ungroup (fieldGroups [("item", .records (articles.map Article.markupFields))]) =
      articles.map fun article => ("item", article.outline) := by
  rw [fieldGroups, fieldGroup, Value.outlines, itemOutlines_articles, fieldGroups, Outline.ungroup,
    List.flatMap_singleton, List.map_map]
  rfl

/-- The fields of a reply say what the reply says. -/
theorem outline_fields (reply : Reply) : reply.markupFields.outline = reply.outline := by
  obtain ⟨header, body⟩ := reply
  cases body with
  | text | image | voice | video | music => rfl
  | news articles =>
    exact congrArg (fun items => Outline.record (headParts ⟨header, .news articles⟩ ++
      [("ArticleCount", .text (decimal articles.length)), ("Articles", .record items)]))
      (ungroup_items articles)

/-- A record of texts has an outline. -/
theorem hasOutline_texts {fields : Fields} (hnames : NoRepeats fields) (hne : fields ≠ [])
    (h : ∀ field ∈ fields, ∃ content, field.2 = .text content) : HasOutline (.record fields) := by
  refine .record hnames ?_ fun name value hmem => ?_
  · obtain ⟨⟨name, value⟩, rest, rfl⟩ := List.exists_cons_of_ne_nil hne
    obtain ⟨content, rfl⟩ := h (name, value) List.mem_cons_self
    exact List.cons_ne_nil _ _
  · obtain ⟨content, rfl⟩ := h (name, value) hmem
    exact .text content

/-- What a body that can be written adds to a reply has an outline. -/
theorem hasOutline_body {body : Body} (h : body.defect? = none) {name : String} {value : Value}
    (hmem : (name, value) ∈ body.markupFields) : HasOutline value := by
  cases body with
  | text content =>
    obtain ⟨rfl, rfl⟩ := by simpa [Body.markupFields] using hmem
    exact .text content
  | image mediaId =>
    obtain ⟨rfl, rfl⟩ := by simpa [Body.markupFields] using hmem
    exact hasOutline_texts (by simp [NoRepeats]) (by simp) (by simp)
  | voice mediaId =>
    obtain ⟨rfl, rfl⟩ := by simpa [Body.markupFields] using hmem
    exact hasOutline_texts (by simp [NoRepeats]) (by simp) (by simp)
  | video mediaId title description =>
    obtain ⟨rfl, rfl⟩ := by simpa [Body.markupFields] using hmem
    exact hasOutline_texts (by simp [NoRepeats]) (by simp) (by simp)
  | music piece =>
    obtain ⟨rfl, rfl⟩ := by simpa [Body.markupFields] using hmem
    exact hasOutline_texts (by simp [NoRepeats, Music.markupFields]) (by simp [Music.markupFields])
      (by simp [Music.markupFields])
  | news articles =>
    rcases (by simpa [Body.markupFields] using hmem) with ⟨rfl, rfl⟩ | ⟨rfl, rfl⟩
    · exact .integer _
    · have hsome : articles ≠ [] := by
        rintro rfl
        simp [Body.defect?] at h
      refine .record (by simp [NoRepeats]) ?_ fun name value hmem => ?_
      · rw [ungroup_items]
        simpa using hsome
      · obtain ⟨rfl, rfl⟩ := by simpa using hmem
        refine .records fun item hitem => ?_
        obtain ⟨article, -, rfl⟩ := List.mem_map.mp hitem
        exact hasOutline_texts (by simp [NoRepeats, Article.markupFields])
          (by simp [Article.markupFields])
          (by simp [Article.markupFields])

/-- The fields of a reply that can be written have an outline. -/
theorem hasOutline_fields {reply : Reply} (h : reply.body.defect? = none) :
    HasOutline (.record reply.markupFields) := by
  refine .record (noRepeats_fields reply) (List.cons_ne_nil _ _) fun name value hmem => ?_
  rcases List.mem_append.mp hmem with hhead | hbody
  · rcases (by simpa using hhead) with ⟨rfl, rfl⟩ | ⟨rfl, rfl⟩ | ⟨rfl, rfl⟩ | ⟨rfl, rfl⟩
    · exact .text _
    · exact .text _
    · exact .integer _
    · exact .text _
  · exact hasOutline_body h hbody

/-! ## Writing -/

/-- News without articles or with too many are refused, and nothing else is. -/
theorem encode_eq_error_iff {format : WireFormat} {reply : Reply} {cause : InternalError} :
    reply.encode format = .error cause ↔ ∃ articles, reply.body = .news articles ∧
      (articles.length = 0 ∨ 8 < articles.length) ∧ cause = .articleCount articles.length := by
  rw [encode]
  cases hbody : reply.body with
  | text | image | voice | video | music => simp [Body.defect?]
  | news articles =>
    by_cases hcount : articles.length = 0 ∨ mostArticles < articles.length
    · rw [Body.defect?, if_pos hcount]
      constructor
      · intro h
        exact ⟨articles, rfl, hcount, (Except.error.inj h).symm⟩
      · rintro ⟨others, hothers, -, rfl⟩
        rw [Body.news.inj hothers]
    · rw [Body.defect?, if_neg hcount]
      constructor
      · intro h
        cases h
      · rintro ⟨others, hothers, hrefused, -⟩
        exact absurd (Body.news.inj hothers ▸ hrefused) hcount

/-- What is written are the fields of a reply that can be written. -/
theorem defect?_of_encode {format : WireFormat} {reply : Reply} {body : Bytes}
    (h : reply.encode format = .ok body) :
    reply.body.defect? = none ∧ body = reply.markupFields.encode format := by
  unfold encode at h
  split at h
  · cases h
  · rename_i hdefect
    exact ⟨hdefect, (Except.ok.inj h).symm.trans (congrArg _ (fields_eq format reply))⟩

/-- Both formats carry one record. News without articles or with more than eight are refused in
both, and nothing else is. What is written as markup is read as what the reply says, and what is
written as JSON says the same; of news, the count of the articles is the number of items, which
are the articles in their order. -/
theorem formats_carry_one_record (reply : Reply)
    (htime : IntegerRange.signed64.Contains reply.header.createTime) :
    (∀ format cause, reply.encode format = .error cause ↔
      ∃ articles, reply.body = .news articles ∧ (articles.length = 0 ∨ 8 < articles.length) ∧
        cause = .articleCount articles.length) ∧
    (∀ body, reply.encode .xml = .ok body →
      Outline.readMarkup? body = some ("xml", reply.outline)) ∧
    (∀ body, reply.encode .json = .ok body →
      ∃ outline, Outline.readJson? body = some outline ∧ reply.outline.Same outline) ∧
    ∀ articles, reply.body = .news articles → ∃ items,
      Outline.under "ArticleCount" reply.parts = [.text (decimal items.length)] ∧
      Outline.under "Articles" reply.parts = [.record items] ∧
      items = articles.map fun article => ("item", article.outline) := by
  refine ⟨fun format cause => encode_eq_error_iff, fun body h => ?_, fun body h => ?_,
    fun articles h => ?_⟩
  · obtain ⟨hdefect, rfl⟩ := defect?_of_encode h
    rw [readMarkup?_encode (arePlainFields_fields reply) (hasOutline_fields hdefect),
      outline_fields]
    rfl
  · obtain ⟨hdefect, rfl⟩ := defect?_of_encode h
    obtain ⟨outline, hread, hsame⟩ := exists_readJson?_encode
      (isReadBack_fields hdefect htime).fitsJson (hasOutline_fields hdefect)
    exact ⟨outline, hread, outline_fields reply ▸ hsame⟩
  · obtain ⟨header, body⟩ := reply
    obtain rfl : body = .news articles := h
    refine ⟨_, ?_, rfl, rfl⟩
    rw [List.length_map]
    rfl

/-- News of one article whose texts hold markup, an end of a section and a reference. -/
def trickyNews : Reply :=
  ⟨⟨"u", "<g>", 5⟩, .news [⟨"]]>", "</Title><Url>x</Url>", "&lt;", ""⟩]⟩

/-- The texts come back as texts, in both formats. -/
theorem formats_carry_one_record_tricky : ∃ markup json outline,
    trickyNews.encode .xml = .ok markup ∧ trickyNews.encode .json = .ok json ∧
    Outline.readMarkup? markup = some ("xml", .record [("ToUserName", .text "u"),
      ("FromUserName", .text "<g>"), ("CreateTime", .text (decimal 5)), ("MsgType", .text "news"),
      ("ArticleCount", .text (decimal 1)), ("Articles", .record [("item", .record [
        ("Title", .text "]]>"), ("Description", .text "</Title><Url>x</Url>"),
        ("PicUrl", .text "&lt;"), ("Url", .text "")])])]) ∧
    Outline.readJson? json = some outline ∧ trickyNews.outline.Same outline := by
  obtain ⟨-, hmarkup, hjson, -⟩ := formats_carry_one_record trickyNews (by decide)
  obtain ⟨outline, hread, hsame⟩ := hjson _ rfl
  exact ⟨_, _, outline, rfl, rfl, hmarkup _ rfl, hread, hsame⟩

end CallbackGateway.Reply
