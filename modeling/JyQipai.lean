import JyQipai.Lib.Reach
import JyQipai.Ddz.Complete
import JyQipai.Ddz.ZeroSum
import JyQipai.Ddz.Control
import JyQipai.Ddz.Legality
import JyQipai.Ddz.Conservation
import JyQipai.Ddz.Agent
import JyQipai.Ddz.Lock
import JyQipai.Ddz.Blind
import JyQipai.Ddz.Leak
import JyQipai.Ddz.Deliver
import JyQipai.Ddz.Baopei
import JyQipai.Ddz.Bidding
import JyQipai.Ddz.EmptyLz
import JyQipai.Ddz.HandEnds
import JyQipai.AssetManage.Ledger
import JyQipai.AssetManage.Price
import JyQipai.Withdraw.Exact
import JyQipai.Mj.RobKong
import JyQipai.Mj.Ready
import JyQipai.Mj.Standing
import JyQipai.Mj.Rain
import JyQipai.Mj.Report
import JyQipai.Mj.Holders
import JyQipai.Mj.ZeroSum
import JyQipai.Mj.Wins
import JyQipai.Mj.HuGang
import JyQipai.Mj.Demand
import JyQipai.Mj.Exchange
import JyQipai.Mj.LuckyHand
import JyQipai.Lib.Restart
import JyQipai.DataService.InOrder
import JyQipai.DataService.Separate
import JyQipai.DataService.Stop
import JyQipai.PlayerInfo.Load
import JyQipai.PlayerInfo.Mirror
import JyQipai.PlayerInfo.ShopGold
import JyQipai.Common.ListRuns
import JyQipai.RedeemCode.Limits
import JyQipai.Payment.Deliver
import JyQipai.Payment.Redeem
import JyQipai.Payment.Restart
import JyQipai.EmailService.PaidOnce
import JyQipai.Friendgame.Recycle
import JyQipai.Friendgame.VoteOrder
import JyQipai.Lottery.Independent
import JyQipai.Lottery.Cycles
import JyQipai.Zajindan.Charge
import JyQipai.Zajindan.Separate
import JyQipai.Zajindan.Payout
import JyQipai.Zajindan.AllSplits
import JyQipai.Zajindan.Caishen
import JyQipai.Xiaoxiaole.Announce
import JyQipai.Xiaoxiaole.Charge
import JyQipai.Xiaoxiaole.KeepRate
import JyQipai.Gobang.Once
import JyQipai.Gobang.Wins
import JyQipai.Tasks.Level
import JyQipai.Tasks.AwardStatus
import JyQipai.Common.ReadBack
import JyQipai.Common.SqlText
import JyQipai.Common.FindRange
import JyQipai.Common.Uri
import JyQipai.Common.Utf8
import JyQipai.Common.Uuid
import JyQipai.Common.Calendar
import JyQipai.Common.Signal
import JyQipai.Common.Bits
