import CallbackGateway.GatewayError
import CallbackGateway.Record.Encode
import CallbackGateway.Reply.Basic

/-!
# Writing replies

A reply is written as one record in either format, and each format has its own table of the fields
of a reply. A reply of news has at least one article and at most eight; every other reply can be
written.
-/

namespace CallbackGateway.Reply

open Record

/-! ## Markup -/

/-- The elements of an article. -/
def Article.markupFields (article : Article) : Fields :=
  [("Title", .text article.title), ("Description", .text article.description),
    ("PicUrl", .text article.pictureUrl), ("Url", .text article.url)]

/-- The elements of a piece of music. -/
def Music.markupFields (music : Music) : Fields :=
  [("Title", .text music.title), ("Description", .text music.description),
    ("MusicUrl", .text music.url), ("HQMusicUrl", .text music.highQualityUrl),
    ("ThumbMediaId", .text music.thumbMediaId)]

/-- The elements that a body adds to a reply. -/
def Body.markupFields : Body → Fields
  | .text content => [("Content", .text content)]
  | .image mediaId => [("Image", .record [("MediaId", .text mediaId)])]
  | .voice mediaId => [("Voice", .record [("MediaId", .text mediaId)])]
  | .video mediaId title description =>
    [("Video", .record [("MediaId", .text mediaId), ("Title", .text title),
      ("Description", .text description)])]
  | .music piece => [("Music", .record piece.markupFields)]
  | .news articles =>
    [("ArticleCount", .integer articles.length),
      ("Articles", .record [("item", .records (articles.map Article.markupFields))])]

/-- The elements of a reply. -/
def markupFields (reply : Reply) : Fields :=
  [("ToUserName", .text reply.header.toUser), ("FromUserName", .text reply.header.fromUser),
    ("CreateTime", .integer reply.header.createTime), ("MsgType", .text reply.body.type)] ++
    reply.body.markupFields

/-! ## JSON -/

/-- The members of an article. -/
def Article.jsonFields (article : Article) : Fields :=
  [("Title", .text article.title), ("Description", .text article.description),
    ("PicUrl", .text article.pictureUrl), ("Url", .text article.url)]

/-- The members of a piece of music. -/
def Music.jsonFields (music : Music) : Fields :=
  [("Title", .text music.title), ("Description", .text music.description),
    ("MusicUrl", .text music.url), ("HQMusicUrl", .text music.highQualityUrl),
    ("ThumbMediaId", .text music.thumbMediaId)]

/-- The members that a body adds to a reply. -/
def Body.jsonFields : Body → Fields
  | .text content => [("Content", .text content)]
  | .image mediaId => [("Image", .record [("MediaId", .text mediaId)])]
  | .voice mediaId => [("Voice", .record [("MediaId", .text mediaId)])]
  | .video mediaId title description =>
    [("Video", .record [("MediaId", .text mediaId), ("Title", .text title),
      ("Description", .text description)])]
  | .music piece => [("Music", .record piece.jsonFields)]
  | .news articles =>
    [("ArticleCount", .integer articles.length),
      ("Articles", .record [("item", .records (articles.map Article.jsonFields))])]

/-- The members of a reply. -/
def jsonFields (reply : Reply) : Fields :=
  [("ToUserName", .text reply.header.toUser), ("FromUserName", .text reply.header.fromUser),
    ("CreateTime", .integer reply.header.createTime), ("MsgType", .text reply.body.type)] ++
    reply.body.jsonFields

/-! ## Bytes -/

/-- The fields of a reply as they are written in a format. -/
def fields (format : WireFormat) (reply : Reply) : Fields :=
  match format with
  | .xml => reply.markupFields
  | .json => reply.jsonFields

/-- Why a body cannot be written. -/
def Body.defect? : Body → Option InternalError
  | .news articles =>
    if articles.length = 0 ∨ mostArticles < articles.length then
      some (.articleCount articles.length)
    else none
  | _ => none

/-- The bytes of a reply. -/
def encode (format : WireFormat) (reply : Reply) : Except InternalError Bytes :=
  match reply.body.defect? with
  | some defect => .error defect
  | none => .ok (Fields.encode format (reply.fields format))

end CallbackGateway.Reply
