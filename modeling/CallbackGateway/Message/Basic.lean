import CallbackGateway.Message.Event

/-!
# Messages

A callback carries a header and one body. The type of a message is the word that announces its
body; a message of a type that is not known keeps the word and nothing else.
-/

namespace CallbackGateway

namespace Message

/-- What every message says about itself. -/
structure Header where
  /-- The account of the app. -/
  toUser : String
  /-- The user who sent the message. -/
  fromUser : String
  /-- In seconds. -/
  createTime : Int
  deriving DecidableEq, Repr

/-- The article from which a message was sent. -/
structure ArticleSource where
  dataId : String
  /-- The position of the article in its post. -/
  index : Int
  deriving DecidableEq, Repr

/-- A text. -/
structure TextBody where
  messageId : Int
  content : String
  /-- Given if the text is a tap on a menu inside an earlier message. -/
  menuId : Option Int
  source : Option ArticleSource
  deriving DecidableEq, Repr

/-- A picture. -/
structure ImageBody where
  messageId : Int
  pictureUrl : String
  mediaId : String
  source : Option ArticleSource
  deriving DecidableEq, Repr

/-- A voice recording. -/
structure VoiceBody where
  messageId : Int
  mediaId : String
  format : String
  /-- What was recognized in the recording. -/
  recognition : Option String
  wideMediaId : Option String
  deriving DecidableEq, Repr

/-- A video. -/
structure VideoBody where
  messageId : Int
  mediaId : String
  thumbMediaId : String
  deriving DecidableEq, Repr

/-- A place. -/
structure LocationBody where
  messageId : Int
  latitude : Binary64
  longitude : Binary64
  scale : Binary64
  label : String
  deriving DecidableEq, Repr

/-- A link. -/
structure LinkBody where
  messageId : Int
  title : String
  description : String
  url : String
  deriving DecidableEq, Repr

/-- What a message carries. -/
inductive Body
  | text (text : TextBody)
  | image (image : ImageBody)
  | voice (voice : VoiceBody)
  | video (video : VideoBody)
  | shortVideo (video : VideoBody)
  | location (location : LocationBody)
  | link (link : LinkBody)
  | event (event : Event)
  /-- A message of another type. -/
  | other (type : String)

/-- The word that announces a body. -/
def Body.type : Body → String
  | .text _ => "text"
  | .image _ => "image"
  | .voice _ => "voice"
  | .video _ => "video"
  | .shortVideo _ => "shortvideo"
  | .location _ => "location"
  | .link _ => "link"
  | .event _ => "event"
  | .other type => type

end Message

/-- A callback. -/
structure Message where
  header : Message.Header
  body : Message.Body

/-- The type of a message. -/
def Message.type (message : Message) : String := message.body.type

end CallbackGateway
